import Moderation.Event
import Moderation.Result
import Moderation.Reviewable

/-!
# The review queue

The backend's record of what is under review and of who has claimed which topic. Requests are
answered one after another. A request on a reviewable names the version that it was prepared
against and is refused when the reviewable has moved on, is resolved, or lies in a topic that is
not the actor's; a refused request changes nothing. A request that is granted comes with the
events that tell the other sessions.
-/

namespace Moderation

/-- Why the queue refuses a request. -/
inductive Refusal where
  | notFound (id : ReviewableId)
  | alreadyResolved (id : ReviewableId)
  | versionConflict (id : ReviewableId) (expected current : UInt64)
  | claimConflict (topic : TopicId) (holder : String)
  | claimRequired (topic : TopicId)
  | unknownAction (action : String)
deriving DecidableEq, Repr

namespace Refusal

def message : Refusal → String
  | .notFound id => "reviewable not found: " ++ toString id
  | .alreadyResolved id => "reviewable " ++ toString id ++ " has already been resolved"
  | .versionConflict id expected current =>
    "reviewable " ++ toString id ++ " was modified by someone else (expected version " ++
      toString expected ++ ", current version " ++ toString current ++ ")"
  | .claimConflict topic holder =>
    "topic " ++ toString topic ++ " is already claimed by " ++ holder
  | .claimRequired topic => "you must claim topic " ++ toString topic ++ " before acting on it"
  | .unknownAction action => "unknown action: " ++ action

/-- The tag that goes with the message for programs to read. -/
def kind : Refusal → String
  | .notFound _ => "not_found"
  | .alreadyResolved _ => "already_resolved"
  | .versionConflict .. => "version_conflict"
  | .claimConflict .. => "claim_conflict"
  | .claimRequired _ => "claim_required"
  | .unknownAction _ => "invalid"

end Refusal

structure Queue where
  items : Std.ExtTreeMap ReviewableId Reviewable
  claims : Std.ExtTreeMap TopicId Claim
  mode : ClaimMode

namespace Queue

/-- What a granted request leaves behind. -/
structure Granted (α : Type) where
  queue : Queue
  events : List Event
  answer : α

def empty (mode : ClaimMode) : Queue := ⟨∅, ∅, mode⟩

instance : Inhabited Queue := ⟨empty default⟩

def get (q : Queue) (id : ReviewableId) : Except Refusal Reviewable :=
  match q.items[id]? with
  | some r => .ok r
  | none => .error (.notFound id)

def topicClaim (q : Queue) (topic : TopicId) : Option Claim := q.claims[topic]?

/-- All reviewables in the order of their numbers. -/
def all (q : Queue) : List Reviewable := q.items.toList.map (·.2)

def pending (q : Queue) : List Reviewable := q.all.filter Reviewable.isPending

def pendingCount (q : Queue) : UInt64 := UInt64.ofNat q.pending.length

/-- Whether something in the topic still waits for review. -/
def hasPending (q : Queue) (topic : TopicId) : Bool :=
  q.all.any fun r ↦ r.topic == some topic && r.isPending

/-- One reviewable more. It takes over the claim of its topic, or brings one for it. -/
def insert (q : Queue) (r : Reviewable) : Queue :=
  match r.topic with
  | none => { q with items := q.items.insert r.id r }
  | some topic => match q.topicClaim topic, r.claim with
    | some claim, _ => { q with items := q.items.insert r.id { r with claim := some claim } }
    | none, some claim =>
      { q with items := q.items.insert r.id r, claims := q.claims.insert topic claim }
    | none, none => { q with items := q.items.insert r.id r }

/-- The queue of a list of reviewables, taken in one after another. -/
def ofSeed (mode : ClaimMode) (seed : List Reviewable) : Queue := seed.foldl insert (empty mode)

def setMode (q : Queue) (mode : ClaimMode) : Queue := { q with mode }

/-- Writes the claim of a topic down, with the topic and with everything in it. -/
def setTopicClaim (q : Queue) (topic : TopicId) (claim : Option Claim) : Queue where
  items := q.items.map fun _ r ↦ if r.topic = some topic then { r with claim } else r
  claims := match claim with
    | some claim => q.claims.insert topic claim
    | none => q.claims.erase topic
  mode := q.mode

/-- Claims a topic. Its holder keeps the claim as it is, except that an explicit claim replaces an
automatic one. -/
def claim (q : Queue) (topic : TopicId) (actor : User) (automatic : Bool) :
    Except Refusal (Granted Claim) :=
  let taken : Claim := ⟨actor, automatic⟩
  let granted : Granted Claim :=
    ⟨q.setTopicClaim topic (some taken), [.claimTransfer (.taken topic taken)], taken⟩
  match q.topicClaim topic with
  | none => .ok granted
  | some existing =>
    if existing.user.id ≠ actor.id then .error (.claimConflict topic existing.user.username)
    else if !existing.automatic || automatic then .ok ⟨q, [], existing⟩
    else .ok granted

/-- Gives up a claim. There may be none, and an automatic release leaves an explicit claim. -/
def unclaim (q : Queue) (topic : TopicId) (actor : User) (automatic : Bool) :
    Except Refusal (Granted Unit) :=
  match q.topicClaim topic with
  | none => .ok ⟨q, [], ()⟩
  | some existing =>
    if existing.user.id ≠ actor.id then .error (.claimConflict topic existing.user.username)
    else if automatic && !existing.automatic then .ok ⟨q, [], ()⟩
    else .ok ⟨q.setTopicClaim topic none, [.claimTransfer (.released topic)], ()⟩

/-- Whether the claims let an actor change what lies in a topic. -/
def checkClaim (q : Queue) (topic : TopicId) (actor : User) : Except Refusal Unit :=
  match q.topicClaim topic with
  | some claim =>
    if claim.user.id ≠ actor.id then .error (.claimConflict topic claim.user.username) else .ok ()
  | none => if q.mode = .required then .error (.claimRequired topic) else .ok ()

/-- Whether a change that was prepared against a version may be made. -/
def checkWritable (q : Queue) (r : Reviewable) (version : UInt64) (actor : User) :
    Except Refusal Unit :=
  if r.status.isResolved then .error (.alreadyResolved r.id)
  else if r.version ≠ version then .error (.versionConflict r.id version r.version)
  else match r.topic with
    | some topic => q.checkClaim topic actor
    | none => .ok ()

/-- The reviewable as an action with some data leaves it. -/
def resolved (r : Reviewable) (status : Status) (data : Fields) : Reviewable :=
  { r with
    status
    version := r.version + 1
    rejectReason := (data["reject_reason"]?.bind Json.asString?).or r.rejectReason
    sendEmail := (data["send_email"]?.bind Json.asBool?).or r.sendEmail }

/-- The status that an action resolves a reviewable to. A list of actions allows no others. -/
def outcome (r : Reviewable) (action : String) : Except Refusal Status :=
  if !r.actions.isEmpty && (r.action? action).isNone then .error (.unknownAction action)
  else match Status.forAction? action with
    | some status => .ok status
    | none => .error (.unknownAction action)

/-- Whether nothing in the topic waits any more while an automatic claim is left on it. -/
def isSettled (q : Queue) (topic : TopicId) : Bool :=
  !q.hasPending topic && (q.topicClaim topic).any (·.automatic)

/-- Drops the automatic claim on a topic that is settled. -/
def settle (q : Queue) : Option TopicId → Queue × List Event
  | none => (q, [])
  | some topic =>
    if q.isSettled topic then
      (q.setTopicClaim topic none, [.claimTransfer (.released topic)])
    else (q, [])

/-- Resolves a reviewable by an action. -/
def perform (q : Queue) (id : ReviewableId) (action : String) (version : UInt64) (actor : User)
    (data : Fields) : Except Refusal (Granted PerformResult) := do
  let r ← q.get id
  q.checkWritable r version actor
  let status ← outcome r action
  let done := resolved r status data
  let (q, events) := settle { q with items := q.items.insert id done } r.topic
  let count := q.pendingCount
  pure {
    queue := q
    events := events ++ [.actionCompleted ⟨[id], some count, none⟩]
    answer := {
      success := true
      status := some status
      version := some done.version
      reviewable := q.items[id]?
      removed := some [id]
      count := some count
      unseen := none } }

/-- Edits a reviewable. Nobody else is told. -/
def update (q : Queue) (id : ReviewableId) (version : UInt64) (actor : User) (updates : Fields) :
    Except Refusal (Granted Reviewable) := do
  let r ← q.get id
  q.checkWritable r version actor
  let edited := r.applyUpdates updates
  let edited := { edited with version := edited.version + 1 }
  pure ⟨{ q with items := q.items.insert id edited }, [], edited⟩

end Queue

end Moderation
