import Moderation.Session.Task

/-!
# Specimens

Two moderators, and the least that a reviewable can be: pending, unclaimed, never changed, open to
every action. Whom a session asks beside the backend agrees to everything and does nothing.
-/

namespace Moderation

namespace User

def alice : User := ⟨1, "alice"⟩

def bob : User := ⟨2, "bob"⟩

end User

def Reviewable.plain (id : ReviewableId) (topic : Option TopicId) : Reviewable where
  id
  kind := "ReviewableFlaggedPost"
  status := .pending
  version := 0
  topic
  claim := none
  author := none
  post := none
  raw := none
  sendEmail := none
  rejectReason := none
  fromFlag := false
  category := none
  createdAt := default
  actions := []
  fields := ∅

/-- A specimen of a spring day at noon. -/
def Reviewable.dated (id : ReviewableId) (topic : Option TopicId) : Reviewable :=
  { plain id topic with createdAt := ⟨2024, 3, 1, 12, 0, 0, 0⟩ }

/-- The answers of everybody, the backend's being given. -/
def Query.answerBy (backend : (request : Request) → request.Reply) :
    (query : Query) → query.Answer
  | .call request => backend request
  | .confirm _ => true
  | .collect .. => none
  | .edit _ => true
  | .penalize .. => .finish false
  | .run .. => .finish (.ok ())

end Moderation
