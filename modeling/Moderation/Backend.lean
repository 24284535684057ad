import Moderation.Queue

/-!
# The backend as a session sees it

A session asks the backend for six things. Each request has its own kind of answer, and any of
them can fail. The queue itself is the plainest backend: `Queue.serve` answers a request directly.
-/

namespace Moderation

/-- Why a request to the backend failed. -/
inductive BackendFault where
  /-- The topic is someone else's. -/
  | claimConflict (message : String)
  /-- The request was prepared against a version that is not the current one; `current` is the
  reviewable as it is now. -/
  | versionConflict (message : String) (current : Option Reviewable)
  | rejected (status : Nat) (kind message : String)
  /-- There was no answer. -/
  | transport (detail : String)
  /-- The answer could not be read. -/
  | undecodable (detail : String)

namespace BackendFault

def message : BackendFault → String
  | claimConflict message => message
  | versionConflict message _ => message
  | rejected _ _ message => message
  | transport detail => "request failed: " ++ detail
  | undecodable detail => "unexpected response: " ++ detail

end BackendFault

inductive Request where
  | perform (id : ReviewableId) (action : String) (version : UInt64) (data : Fields)
  | claim (topic : TopicId) (automatic : Bool)
  | release (topic : TopicId) (automatic : Bool)
  | fetch (id : ReviewableId)
  | list
  | update (id : ReviewableId) (version : UInt64) (updates : Fields)

namespace Request

/-- What the backend answers when it grants a request. -/
abbrev Answer : Request → Type
  | perform .. => PerformResult
  | claim .. => Claim
  | release .. => Unit
  | fetch _ => Reviewable
  | list => List Reviewable
  | update .. => Reviewable

abbrev Reply (request : Request) : Type := Except BackendFault request.Answer

end Request

namespace Refusal

/-- The status code of a refusal. -/
def status : Refusal → Nat
  | notFound _ => 404
  | alreadyResolved _ => 422
  | versionConflict .. => 409
  | claimConflict .. => 409
  | claimRequired _ => 422
  | unknownAction _ => 400

/-- The fault that a refusal is to the session, given the queue that refused. -/
def fault (q : Queue) (refusal : Refusal) : BackendFault :=
  match refusal with
  | versionConflict id _ _ => .versionConflict refusal.message q.items[id]?
  | claimConflict _ _ => .claimConflict refusal.message
  | _ => .rejected refusal.status refusal.kind refusal.message

end Refusal

namespace Queue

/-- Answers a request as an actor. -/
def serve (q : Queue) (actor : User) : (request : Request) → Except Refusal (Granted request.Answer)
  | .perform id action version data => q.perform id action version actor data
  | .claim topic automatic => q.claim topic actor automatic
  | .release topic automatic => q.unclaim topic actor automatic
  | .fetch id => (q.get id).map fun r ↦ ⟨q, [], r⟩
  | .list => .ok ⟨q, [], q.pending⟩
  | .update id version updates => q.update id version actor updates

end Queue

end Moderation
