import Moderation.Proofs.Replica
import Moderation.Proofs.Session.Alone

/-!
# Waiting for an answer

A task that asks the queue waits until the answer arrives, while the session goes on with something
else. What a session does about claims is short: it asks once, if at all, and writes what the answer
says over the claims that it has by then, just as it does with an event.
-/

namespace Moderation

/-- What the session makes of a granted request for a claim, as the event that would say the
same. -/
def Request.said : (request : Request) → request.Reply → Option ClaimTransfer
  | .claim topic _, .ok answer => some (.taken topic answer)
  | .release topic _, .ok () => some (.released topic)
  | _, _ => none

/-- An answer of the queue says what claim there is afterwards, unless the queue left one. -/
theorem Queue.said_reply {q : Queue} {actor : User} {request : Request} {event : ClaimTransfer}
    (h : request.said (q.reply actor request).1 = some event) :
    (q.after (.request actor request)).topicClaim event.topic = event.claim ∨
      request = .release event.topic true ∧
        ∃ claim, (q.after (.request actor request)).topicClaim event.topic = some claim ∧
          claim.user.id = actor.id ∧ claim.automatic = false := by
  cases hserve : q.serve actor request with
  | error refusal =>
    have hnone : request.said (.error (refusal.fault q)) = none := by cases request <;> rfl
    simp [Queue.reply, hserve, hnone] at h
  | ok granted =>
    simp only [Queue.reply, hserve] at h
    simp only [Queue.after, hserve]
    cases request with
    | claim topic automatic =>
      obtain rfl := Option.some.inj h
      exact .inl (claim_answer hserve)
    | release topic automatic =>
      obtain rfl := Option.some.inj h
      rcases (unclaim_effect hserve).topicClaim_release_cases with hnone | ⟨rfl, hleft⟩
      · exact .inl hnone
      · exact .inr ⟨rfl, hleft⟩
    | perform | fetch | list | update => simp [Request.said] at h

namespace Store

variable {s : Store} {events : List ClaimTransfer} {claims : TopicId → Option Claim}

/-- Writes an answer down. -/
def note (s : Store) (said : Option ClaimTransfer) : Store :=
  match said with
  | some event => s.hear (.inl event)
  | none => s

def Tracks (s : Store) (topic : TopicId) : Prop :=
  ∃ id copy, s.get? id = some copy ∧ copy.topic = some topic

/-- Some events more, and everything that the store has shows the given claims. -/
def ComesTo (s : Store) (events : List ClaimTransfer) (claims : TopicId → Option Claim) : Prop :=
  ∀ id copy topic, s.get? id = some copy → copy.topic = some topic →
    claimAfter topic copy.claim events = claims topic

/-- A claim that is heard is shown on the copies of its topic. -/
theorem get?_hear_claim (s : Store) (event : ClaimTransfer) (id : ReviewableId) :
    (s.hear (.inl event)).get? id =
      (s.get? id).map fun copy ↦ { copy with claim := Queue.shownAfter copy [event] } := by
  unfold get?
  rw [entries_hear_claim, Option.map_map, Option.map_map]
  rfl

theorem get?_hear_action (s : Store) (event : ActionCompleted) (id : ReviewableId) :
    (s.hear (.inr event)).get? id = if id ∈ event.removed then none else s.get? id := by
  unfold get?
  rw [entries_hear_action]
  split <;> rfl

/-- A copy after an event about a claim, and the copy that it was before. -/
theorem eq_some_of_hear_claim {event : ClaimTransfer} {id : ReviewableId} {copy : Reviewable}
    {topic : TopicId} (hcopy : (s.hear (.inl event)).get? id = some copy)
    (htopic : copy.topic = some topic) :
    ∃ old, s.get? id = some old ∧ old.topic = some topic ∧
      copy.claim = claimAfter topic old.claim [event] := by
  rw [get?_hear_claim, Option.map_eq_some_iff] at hcopy
  obtain ⟨old, hold, rfl⟩ := hcopy
  have hinTopic : old.topic = some topic := htopic
  refine ⟨old, hold, hinTopic, ?_⟩
  change Queue.shownAfter old [event] = _
  rw [Queue.shownAfter, hinTopic]

/-- With one event heard there is one less to come. -/
theorem ComesTo.hear_claim {event : ClaimTransfer} (h : s.ComesTo (event :: events) claims) :
    (s.hear (.inl event)).ComesTo events claims := by
  intro id copy topic hcopy htopic
  obtain ⟨old, hold, hinTopic, hclaim⟩ := eq_some_of_hear_claim hcopy htopic
  rw [hclaim, ← claimAfter_append]
  exact h id old topic hold hinTopic

theorem ComesTo.hear_action (h : s.ComesTo events claims) (event : ActionCompleted) :
    (s.hear (.inr event)).ComesTo events claims := by
  intro id copy topic hcopy htopic
  rw [get?_hear_action] at hcopy
  split at hcopy
  · cases hcopy
  · exact h id copy topic hcopy htopic

/-- What an answer says does no harm where it is right, where a later event corrects it, and where
nothing shows it. -/
theorem ComesTo.hear_answer_iff (h : s.ComesTo events claims) (event : ClaimTransfer) :
    (s.hear (.inl event)).ComesTo events claims ↔
      ¬ (s.Tracks event.topic ∧ event.claim ≠ claims event.topic ∧
        ∀ later ∈ events, later.topic ≠ event.topic) := by
  constructor
  · rintro hafter ⟨⟨id, copy, hcopy, htopic⟩, hwrong, hnever⟩
    have hcopy' := get?_hear_claim s event id
    rw [hcopy, Option.map_some] at hcopy'
    have hclaims := hafter id _ event.topic hcopy' htopic
    rw [claimAfter_of_never hnever] at hclaims
    apply hwrong
    rw [← hclaims, Queue.shownAfter, htopic]
    simp [claimAfter]
  · intro hright id copy topic hcopy htopic
    obtain ⟨old, hold, hinTopic, hclaim⟩ := eq_some_of_hear_claim hcopy htopic
    have hcomes := h id old topic hold hinTopic
    by_cases hlater : ∃ later ∈ events, later.topic = topic
    · rw [← hcomes]
      exact claimAfter_of_mem hlater _ _
    · have hnever : ∀ later ∈ events, later.topic ≠ topic := by simpa using hlater
      rw [claimAfter_of_never hnever] at hcomes ⊢
      by_cases habout : event.topic = topic
      · subst topic
        by_contra hwrong
        refine hright ⟨⟨id, old, hold, hinTopic⟩, ?_, hnever⟩
        simpa [hclaim, claimAfter] using hwrong
      · rw [hclaim, claimAfter_of_never (by simpa using habout), hcomes]

end Store

namespace Task

variable {α : Type}

/-- A task that waits for the answer of the queue. -/
structure Waiting where
  request : Request
  next : request.Reply → Task Unit

/-- Runs a task to its end, or until it asks. Only the queue is there to be asked. -/
def proceed : Task Unit → Session.State → Session.State × Option Waiting
  | done (), state => (state, none)
  | sync change next, state => (next state).proceed (change state)
  | mark id next, state => match state.store.beginUpdate id with
    | .ok store => (next none).proceed { state with store }
    | .error fault => (next (some fault)).proceed state
  | unmark id next, state => next.proceed { state with store := state.store.endUpdate id }
  | ask (.call request) next, state => (state, some ⟨request, next⟩)
  | ask _ _, state => (state, none)

/-- The task without its result. -/
def forget (task : Task α) : Task Unit := do
  let _ ← task

/-- All that comes of the answer is that it is written down. -/
def Waiting.Notes (w : Waiting) : Prop :=
  ∀ reply state, ((w.next reply).proceed state).2 = none ∧
    ((w.next reply).proceed state).1.store = state.store.note (w.request.said reply)

/-- The task leaves the store alone, and if it asks then for a claim that it writes down. -/
def Claims (task : Task α) : Prop :=
  ∀ state, (task.forget.proceed state).1.store = state.store ∧
    ∀ w ∈ (task.forget.proceed state).2, w.Notes

theorem claims_pure (a : α) : (pure a : Task α).Claims :=
  fun _ ↦ ⟨rfl, fun _ hw ↦ by cases hw⟩

theorem claims_lookUp {id : ReviewableId} {rest : Option Reviewable → Task α}
    (h : ∀ copy, (rest copy).Claims) : (lookUp id >>= rest).Claims :=
  fun state ↦ h (state.store.get? id) state

theorem claims_withCopy {id : ReviewableId} {body : Reviewable → Task (Except SessionFault α)}
    (h : ∀ r, (body r).Claims) : (withCopy id body).Claims := by
  refine claims_lookUp fun copy ↦ ?_
  cases copy with
  | some r => exact h r
  | none => exact claims_pure _

/-- A task of claims ends with the answer, and takes over what it says. -/
theorem claims_call {request : Request} {rest : request.Reply → Task α}
    (h : ∀ reply state, ((rest reply).forget.proceed state).2 = none ∧
      ((rest reply).forget.proceed state).1.store = state.store.note (request.said reply)) :
    (call request >>= rest).Claims := by
  refine fun state ↦ ⟨rfl, fun w hw ↦ ?_⟩
  obtain rfl := Option.mem_some_iff.mp hw
  exact h

end Task

namespace Session

variable {s : Session}

/-- What a session does about claims. -/
inductive ClaimOp where
  | ensureClaimed (id : ReviewableId)
  /-- Takes back the automatic claim that the reviewable had when it was as given. -/
  | release (r : Reviewable)
  | claim (id : ReviewableId)
  | unclaim (id : ReviewableId)

def claimTask (s : Session) : ClaimOp → Task Unit
  | .ensureClaimed id => (s.ensureClaimed id).forget
  | .release r => (s.release r).forget
  | .claim id => (s.claim id).forget
  | .unclaim id => (s.unclaim id).forget

theorem claims_ensureClaimed (s : Session) (id : ReviewableId) : (s.ensureClaimed id).Claims := by
  refine Task.claims_lookUp fun copy ↦ ?_
  cases copy with
  | none => exact Task.claims_pure false
  | some r =>
    cases htopic : r.topic with
    | none => simpa only [htopic] using Task.claims_pure true
    | some topic =>
      simp only [htopic]
      split
      · exact Task.claims_pure true
      · split
        · exact Task.claims_pure false
        · refine Task.claims_call fun reply state ↦ ?_
          cases reply with
          | ok claim => exact ⟨rfl, rfl⟩
          | error fault => cases fault <;> exact ⟨rfl, rfl⟩

theorem claims_release (s : Session) (r : Reviewable) : (s.release r).Claims := by
  unfold release
  split
  · split
    · refine Task.claims_call fun reply state ↦ ?_
      cases reply <;> exact ⟨rfl, rfl⟩
    · exact Task.claims_pure _
  · exact Task.claims_pure _

theorem claims_claim (s : Session) (id : ReviewableId) : (s.claim id).Claims := by
  refine Task.claims_withCopy fun r ↦ ?_
  split
  · exact Task.claims_pure _
  · refine Task.claims_call fun reply state ↦ ?_
    cases reply <;> exact ⟨rfl, rfl⟩

theorem claims_unclaim (s : Session) (id : ReviewableId) : (s.unclaim id).Claims := by
  refine Task.claims_withCopy fun r ↦ ?_
  split
  · exact Task.claims_pure _
  · refine Task.claims_call fun reply state ↦ ?_
    cases reply <;> exact ⟨rfl, rfl⟩

/-- Until it waits a task of claims leaves the store alone, and then it notes what the answer says.
-/
theorem claimTask_proceed (s : Session) (op : ClaimOp) (state : State) :
    ((s.claimTask op).proceed state).1.store = state.store ∧
      ∀ w ∈ ((s.claimTask op).proceed state).2, w.Notes := by
  cases op with
  | ensureClaimed id => exact s.claims_ensureClaimed id state
  | release r => exact s.claims_release r state
  | claim id => exact s.claims_claim id state
  | unclaim id => exact s.claims_unclaim id state

end Session

end Moderation
