import Moderation.Action
import Moderation.Claim
import Moderation.Json
import Moderation.Status
import Moderation.Time

/-!
# Reviewables

A unit of moderation work. Beside the attributes that every reviewable has it carries fields of
its own kind, under any names. An edit changes the category, merges the payload and overwrites
any other field.
-/

namespace Moderation

structure Reviewable where
  id : ReviewableId
  kind : String
  status : Status
  /-- Counts the accepted changes; a request names the version that it was prepared against. -/
  version : UInt64
  topic : Option TopicId
  claim : Option Claim
  /-- Who wrote what is under review. -/
  author : Option User
  post : Option UInt64
  raw : Option String
  sendEmail : Option Bool
  rejectReason : Option String
  fromFlag : Bool
  category : Option UInt64
  createdAt : Time
  actions : List Action
  /-- The fields that only reviewables of this kind have. -/
  fields : Fields

namespace Reviewable

/-- Equality of reviewables, free-form values being compared as values. -/
def same (r s : Reviewable) : Bool :=
  r.id == s.id && r.kind == s.kind && r.status == s.status && r.version == s.version &&
    r.topic == s.topic && r.claim == s.claim && r.author == s.author && r.post == s.post &&
    r.raw == s.raw && r.sendEmail == s.sendEmail && r.rejectReason == s.rejectReason &&
    r.fromFlag == s.fromFlag && r.category == s.category && r.createdAt == s.createdAt &&
    r.actions == s.actions && r.fields.same s.fields

theorem same_refl (r : Reviewable) : r.same r = true := by
  simp [same, Fields.same_refl]

def isPending (r : Reviewable) : Bool := !r.status.isResolved

def isClaimedBy (r : Reviewable) (user : UserId) : Bool := r.claim.any (·.user.id == user)

/-- The claim, when it is someone else's. -/
def claimOfOther? (r : Reviewable) (user : UserId) : Option Claim :=
  r.claim.filter (·.user.id != user)

/-- The first action of a name. -/
def action? (r : Reviewable) (name : String) : Option Action :=
  r.actions.find? (·.name == name)

/-- The value of an attribute or field by its name, five attributes going before the fields. -/
def field? (r : Reviewable) (name : String) : Option Json :=
  if name = "post_id" then r.post.map .ofUInt64
  else if name = "raw" then r.raw.map .string
  else if name = "category_id" then r.category.map .ofUInt64
  else if name = "send_email" then r.sendEmail.map .bool
  else if name = "reject_reason" then r.rejectReason.map .string
  else r.fields[name]?

/-- The payload after an edit: objects are merged member by member, and what is no object gives
way to one. -/
def mergePayload (stored : Option Json) (members : List (String × Json)) : Json :=
  match stored with
  | some (.object old) =>
    .ofFields ((Fields.ofMembers old).overlay (Fields.ofMembers members))
  | _ => .ofFields (Fields.ofMembers members)

/-- One entry of an edit. A payload that is no object changes nothing. -/
def applyUpdate (r : Reviewable) (name : String) (value : Json) : Reviewable :=
  if name = "category_id" then { r with category := value.asUInt64? }
  else if name = "payload" then
    match value with
    | .object members =>
      { r with fields := r.fields.insert "payload" (mergePayload r.fields["payload"]? members) }
    | _ => r
  else { r with fields := r.fields.insert name value }

/-- All entries of an edit, in the order of their names. -/
def applyUpdates (r : Reviewable) (updates : Fields) : Reviewable :=
  updates.members.foldl (fun r (name, value) ↦ r.applyUpdate name value) r

end Reviewable

/-- An edit without the objects in it that say nothing. -/
def Fields.pruned (updates : Fields) : Fields :=
  updates.filter fun _ value ↦ match value with
    | .object [] => false
    | _ => true

end Moderation
