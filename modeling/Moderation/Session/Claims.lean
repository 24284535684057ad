import Moderation.Session.Task

/-!
# Claiming topics

Before an action is sent its topic is claimed, automatically if nobody has. Whatever the backend
answers goes over the claim of everything in the topic that the session has.
-/

namespace Moderation

/-- How the claim on a reviewable looks to a moderator. -/
inductive ClaimStatus where
  | own
  /-- Somebody else's, for as long as an action takes. -/
  | automatic (user : User)
  | other (user : User)
  /-- Free, and nobody has to claim. -/
  | optional
  /-- Free, in every other mode. -/
  | required
deriving DecidableEq, Repr

namespace Session

/-- Whether claims count for a reviewable: it has a topic, and claims are in use or it is claimed
automatically all the same. -/
def claimEnabled (s : Session) (r : Reviewable) : Bool :=
  r.topic.isSome && (s.config.mode != .disabled || r.claim.any (·.automatic))

/-- Whether the moderator may act on a reviewable. -/
def canPerform (s : Session) (r : Reviewable) : Bool :=
  if s.claimEnabled r then
    match r.claim with
    | some claim => claim.user.id == s.actor.id
    | none => s.config.mode != .required
  else true

def claimStatus (s : Session) (r : Reviewable) : ClaimStatus :=
  match r.claim with
  | some claim =>
    if claim.user.id = s.actor.id then .own
    else if claim.automatic then .automatic claim.user
    else .other claim.user
  | none => if s.config.mode = .optional then .optional else .required

/-- Claims a free topic automatically. The moderator hears of a failure unless it is that somebody
was faster. -/
def claimFree (s : Session) (topic : TopicId) : Task Bool := do
  match ← Task.call (.claim topic true) with
  | .ok claim =>
    let _ ← Task.onStore (·.setTopicClaim topic (some claim))
    pure (claim.user.id == s.actor.id)
  | .error (.claimConflict _) => pure false
  | .error fault =>
    Task.failure fault.message
    pure false

/-- Whether the topic of a reviewable is the moderator's now, after claiming it if it was free. -/
def ensureClaimed (s : Session) (id : ReviewableId) : Task Bool := do
  match ← Task.lookUp id with
  | none => pure false
  | some r => match r.topic with
    | none => pure true
    | some topic =>
      if r.isClaimedBy s.actor.id then pure true
      else if (r.claimOfOther? s.actor.id).isSome then pure false
      else s.claimFree topic

/-- Takes the automatic claim back that the moderator had on a reviewable when `r` was its copy;
the answer is whether a request was sent. -/
def release (s : Session) (r : Reviewable) : Task (Except BackendFault Bool) :=
  match r.topic, r.claim with
  | some topic, some claim =>
    if claim.automatic && claim.user.id == s.actor.id then do
      match ← Task.call (.release topic true) with
      | .ok () =>
        let _ ← Task.onStore (·.setTopicClaim topic none)
        pure (.ok true)
      | .error fault => pure (.error fault)
    else pure (.ok false)
  | _, _ => pure (.ok false)

/-- Claims the topic of a reviewable explicitly. -/
def claim (_ : Session) (id : ReviewableId) : Task (Except SessionFault Claim) :=
  Task.withCopy id fun r ↦ match r.topic with
    | none => pure (.error (.noTopic id))
    | some topic => do
      match ← Task.call (.claim topic false) with
      | .ok claim =>
        let _ ← Task.onStore (·.setTopicClaim topic (some claim))
        pure (.ok claim)
      | .error fault => pure (.error (.backend fault))

/-- Gives the moderator's claim up, as the kind of claim that the session takes it for. -/
def unclaim (_ : Session) (id : ReviewableId) : Task (Except SessionFault Unit) :=
  Task.withCopy id fun r ↦ match r.topic with
    | none => pure (.error (.noTopic id))
    | some topic => do
      match ← Task.call (.release topic (r.claim.any (·.automatic))) with
      | .ok () =>
        let _ ← Task.onStore (·.setTopicClaim topic none)
        pure (.ok ())
      | .error fault => pure (.error (.backend fault))

end Session

end Moderation
