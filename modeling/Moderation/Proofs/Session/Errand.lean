import Moderation.Proofs.Marker
import Moderation.Proofs.Session.Waiting

/-!
# Errands

What a session can be asked to do, and two things about how it does it. An errand on a reviewable
asks whatever it asks under one guard for it, and comes back without a guard on whichever way it
ends; no other step of it sets a marker. And no errand but the giving up of a claim asks the backend
for the release of an explicit claim.
-/

namespace Moderation

/-- The question may lead to the release of an automatic claim, but not of an explicit one. -/
def Query.IsMild : Query → Prop
  | .call (.release _ automatic) => automatic = true
  | _ => True

namespace Task

variable {α β : Type} {asks : Query → List ReviewableId → Prop}
  {guards mid left : List ReviewableId}

/-- Begun with some guards, the task comes to its end with the guards `left`, asks nothing but what
may be asked under the guards that it has by then, and sets a marker only with a guard. -/
def Tidy (asks : Query → List ReviewableId → Prop) (left : List ReviewableId) :
    Task α → List ReviewableId → Prop
  | done _, guards => guards = left
  | sync change next, guards =>
    (∀ (state : Session.State) (id : ReviewableId),
      (change state).store.isUpdating id = true → state.store.isUpdating id = true) ∧
        ∀ state, (next state).Tidy asks left guards
  | mark id next, guards =>
    (next none).Tidy asks left (id :: guards) ∧ ∀ fault, (next (some fault)).Tidy asks left guards
  | unmark id next, guards => next.Tidy asks left (guards.erase id)
  | ask query next, guards => asks query guards ∧ ∀ answer, (next answer).Tidy asks left guards

/-- What follows starts with the guards that are left over. -/
theorem Tidy.bind {task : Task α} {rest : α → Task β} (first : task.Tidy asks mid guards)
    (second : ∀ a, (rest a).Tidy asks left mid) : (task >>= rest).Tidy asks left guards := by
  change (task.bind rest).Tidy asks left guards
  induction task generalizing guards with
  | done a =>
    obtain rfl : guards = mid := first
    exact second a
  | sync change next ih => exact ⟨first.1, fun state ↦ ih state (first.2 state)⟩
  | mark id next ih => exact ⟨ih none first.1, fun fault ↦ ih (some fault) (first.2 fault)⟩
  | unmark id next ih => exact ih first
  | ask query next ih => exact ⟨first.1, fun answer ↦ ih answer (first.2 answer)⟩

theorem tidy_pure (a : α) : (pure a : Task α).Tidy asks guards guards := rfl

theorem Tidy.map {task : Task α} (h : task.Tidy asks left guards) (f : α → β) :
    (task >>= fun a ↦ pure (f a)).Tidy asks left guards :=
  h.bind fun a ↦ tidy_pure (f a)

/-- A step that leaves the store alone cannot set a marker. -/
theorem tidy_sync {change : Session.State → Session.State} {next : Session.State → α}
    (h : ∀ state, (change state).store = state.store) :
    (sync change fun state ↦ done (next state)).Tidy asks guards guards := by
  refine ⟨fun state id hmarked ↦ ?_, fun _ ↦ rfl⟩
  rwa [h] at hmarked

theorem tidy_note (n : Note) : (note n).Tidy asks guards guards := tidy_sync fun _ ↦ rfl

theorem tidy_lookUp (id : ReviewableId) : (lookUp id).Tidy asks guards guards :=
  tidy_sync fun _ ↦ rfl

/-- An operation on the store is tidy if it sets no marker. -/
theorem tidy_onStore {operation : Store → Store.Revision α}
    (h : Store.Unmarked fun s ↦ (operation s).store) :
    (onStore operation).Tidy asks guards guards :=
  ⟨fun state ↦ h state.store, fun _ ↦ rfl⟩

theorem tidy_query {q : Query} (h : asks q guards) : (query q).Tidy asks guards guards :=
  ⟨h, fun _ ↦ rfl⟩

theorem tidy_call {request : Request} (h : asks (.call request) guards) :
    (call request).Tidy asks guards guards :=
  ⟨h, fun _ ↦ rfl⟩

/-- If there is no copy the task ends at once, with the guards that it had. -/
theorem tidy_withCopy {id : ReviewableId} {body : Reviewable → Task (Except SessionFault α)}
    (h : ∀ r, (body r).Tidy asks guards guards) : (withCopy id body).Tidy asks guards guards := by
  apply (tidy_lookUp id).bind
  intro copy
  cases copy with
  | none => exact tidy_pure _
  | some r => exact h r

/-- Whichever way the body ends, the guard is let go of. -/
theorem tidy_withUpdate {id : ReviewableId} {body : Task (Except SessionFault α)}
    (h : body.Tidy asks (id :: guards) (id :: guards)) :
    (withUpdate id body).Tidy asks guards guards := by
  refine ⟨?_, fun fault ↦ rfl⟩
  apply h.bind
  intro result
  exact List.erase_cons_head id guards

theorem Tidy.forget {task : Task α} (h : task.Tidy asks guards guards) :
    task.forget.Tidy asks guards guards :=
  h.map fun _ ↦ ()

end Task

namespace Session

open Moderation.Task

section Parts

variable {asks : Query → List ReviewableId → Prop} {guards : List ReviewableId}

/-- Giving up a claim asks for its release, so here any question has to be allowed. -/
theorem tidy_unclaim (any : ∀ query : Query, asks query guards) (s : Session) (id : ReviewableId) :
    (s.unclaim id).Tidy asks guards guards := by
  apply tidy_withCopy
  intro r
  cases r.topic with
  | none => exact tidy_pure _
  | some topic =>
    apply (tidy_call (any (.call (.release topic (r.claim.any (·.automatic)))))).bind
    intro reply
    cases reply with
    | ok done =>
      exact (tidy_onStore (Store.unmarked_setTopicClaim topic none)).map _
    | error fault => exact tidy_pure _

/-- A failure is told, and the store takes over a newer reviewable at most. -/
theorem tidy_reportFailure (fault : BackendFault) :
    (reportFailure fault).Tidy asks guards guards := by
  cases fault with
  | versionConflict message current =>
    cases current with
    | none => exact tidy_note _
    | some r => exact (tidy_onStore (Store.unmarked_refresh r)).bind fun _ ↦ tidy_note _
  | claimConflict | rejected | transport | undecodable => exact tidy_note _

variable (mild : ∀ query : Query, query.IsMild → asks query guards)

include mild

theorem tidy_claimFree (s : Session) (topic : TopicId) :
    (s.claimFree topic).Tidy asks guards guards := by
  apply (tidy_call (mild (.call (.claim topic true)) trivial)).bind
  intro reply
  cases reply with
  | ok claim => exact (tidy_onStore (Store.unmarked_setTopicClaim topic _)).map _
  | error fault => cases fault with
    | claimConflict message => exact tidy_pure false
    | versionConflict | rejected | transport | undecodable =>
      exact (tidy_note _).map _

/-- Nothing is asked but for an automatic claim of the topic. -/
theorem tidy_ensureClaimed (s : Session) (id : ReviewableId) :
    (s.ensureClaimed id).Tidy asks guards guards := by
  apply (tidy_lookUp id).bind
  intro copy
  cases copy with
  | none => exact tidy_pure false
  | some r =>
    dsimp only
    cases r.topic with
    | none => exact tidy_pure true
    | some topic =>
      dsimp only
      split
      · exact tidy_pure true
      · split
        · exact tidy_pure false
        · exact tidy_claimFree mild s topic

/-- Only an automatic claim is taken back. -/
theorem tidy_release (s : Session) (r : Reviewable) : (s.release r).Tidy asks guards guards := by
  unfold release
  split
  · rename_i topic claim _ _
    split
    · apply (tidy_call (mild (.call (.release topic true)) rfl)).bind
      intro reply
      cases reply with
      | ok done =>
        exact (tidy_onStore (Store.unmarked_setTopicClaim topic none)).map _
      | error fault => exact tidy_pure _
    · exact tidy_pure _
  · exact tidy_pure _

theorem tidy_claim (s : Session) (id : ReviewableId) : (s.claim id).Tidy asks guards guards := by
  apply tidy_withCopy
  intro r
  cases r.topic with
  | none => exact tidy_pure _
  | some topic =>
    apply (tidy_call (mild (.call (.claim topic false)) trivial)).bind
    intro reply
    cases reply with
    | ok claim =>
      exact (tidy_onStore (Store.unmarked_setTopicClaim topic _)).map _
    | error fault => exact tidy_pure _

theorem tidy_reload (id : ReviewableId) : (reload id).Tidy asks guards guards := by
  apply (tidy_call (mild (.call (.fetch id)) trivial)).bind
  intro reply
  cases reply with
  | ok r => exact (tidy_onStore (Store.unmarked_refresh r)).map _
  | error fault => exact (tidy_note _).map _

/-- What comes back for an action changes the store, and may be fetched once more. -/
theorem tidy_applyResult (id : ReviewableId) (action : Action) (result : PerformResult) :
    (applyResult id action result).Tidy asks guards guards := by
  obtain ⟨success, status, version, reviewable, removed, count, unseen⟩ := result
  unfold applyResult
  apply (tidy_onStore (Store.unmarked_applyCounts count unseen)).bind
  intro _
  cases action.completion <;> cases reviewable <;> cases removed
  all_goals
    repeat first
      | exact tidy_pure _
      | exact (tidy_reload mild id).map _
      | refine (tidy_onStore (Store.unmarked_refresh _)).bind fun _ ↦ ?_
      | refine (tidy_onStore (Store.unmarked_remove _)).bind fun _ ↦ ?_
      | refine (tidy_note _).bind fun _ ↦ ?_

/-- A send asks for the action, and for a fetch if the result says too little. -/
theorem tidy_send (s : Session) (id : ReviewableId) (action : Action) (extra : Fields) :
    (s.send id action extra).Tidy asks guards guards := by
  apply tidy_withCopy
  intro r
  apply (tidy_call (mild (.call (.perform id action.name r.version _)) trivial)).bind
  intro reply
  cases reply with
  | ok result => exact (tidy_applyResult mild id action result).map _
  | error fault => exact (tidy_reportFailure fault).map _

/-- A dispatch touches the store only as its send does, and sends only if the right to is free. -/
theorem tidy_dispatch (s : Session) (p : Pending) (more : Fields) :
    (s.dispatch p more).Tidy asks guards guards := by
  have htake : p.take.Tidy asks guards guards := tidy_sync fun _ ↦ rfl
  apply htake.bind
  intro taken
  cases taken with
  | true => exact tidy_pure _
  | false =>
    apply (tidy_send mild s p.id p.action _).bind
    intro result
    cases result with
    | ok completion =>
      have hcomplete : (p.complete completion).Tidy asks guards guards := tidy_sync fun _ ↦ rfl
      exact hcomplete.map _
    | error fault =>
      have hgiveBack : p.giveBack.Tidy asks guards guards := tidy_sync fun _ ↦ rfl
      exact hgiveBack.map _

/-- However often a plan sends. -/
theorem tidy_carryOut {α : Type} (s : Session) (p : Pending) (plan : Plan α) :
    (s.carryOut p plan).Tidy asks guards guards := by
  induction plan with
  | finish result => exact tidy_pure result
  | send more next ih =>
    apply (tidy_dispatch mild s p more).bind
    intro result
    exact (tidy_note _).bind fun _ ↦ ih result

theorem tidy_penalize (s : Session) (kind : PenaltyKind) (r : Reviewable) (p : Pending) :
    (s.penalize kind r p).Tidy asks guards guards := by
  unfold penalize
  cases r.author with
  | none => exact tidy_pure false
  | some user =>
    apply (tidy_query (mild (.penalize kind user r) trivial)).bind
    exact tidy_carryOut mild s p

/-- Without a penalty an automatic claim may be released, and no explicit one. -/
theorem tidy_runPenalty (s : Session) (kind : PenaltyKind) (r : Reviewable) (p : Pending) :
    (s.runPenalty kind r p).Tidy asks guards guards := by
  unfold runPenalty
  split
  · apply (tidy_penalize mild s kind r p).bind
    intro penalized
    cases penalized with
    | true => exact tidy_pure ()
    | false =>
      apply (tidy_release mild s r).bind
      intro released
      cases released with
      | ok sent => exact tidy_pure ()
      | error fault => exact tidy_note _
  · exact tidy_pure ()

theorem tidy_runEdit (s : Session) (r : Reviewable) (p : Pending) :
    (s.runEdit r p).Tidy asks guards guards := by
  apply (tidy_query (mild (.edit r) trivial)).bind
  intro editable
  cases editable with
  | true => exact (tidy_dispatch mild s p ∅).map _
  | false => exact tidy_pure _

theorem tidy_runWorkflow (s : Session) (workflow : Workflow) (r : Reviewable) (p : Pending) :
    (s.runWorkflow workflow r p).Tidy asks guards guards := by
  cases workflow with
  | penalty kind => exact (tidy_runPenalty mild s kind r p).map _
  | edit => exact tidy_runEdit mild s r p
  | custom name =>
    apply (tidy_query (mild (.run name r p.action) trivial)).bind
    exact tidy_carryOut mild s p

/-- What a workflow asks it asks under the guard of its action. -/
theorem tidy_performByWorkflow (s : Session) (workflow : Workflow) (id : ReviewableId)
    (action : Action) (extra : Fields) :
    (s.performByWorkflow workflow id action extra).Tidy asks guards guards := by
  apply tidy_withCopy
  intro r
  have hcreate : (Pending.create id action extra).Tidy asks guards guards := tidy_sync fun _ ↦ rfl
  apply hcreate.bind
  intro p
  apply (tidy_runWorkflow mild s workflow r p).bind
  intro result
  cases result with
  | error fault => exact tidy_pure _
  | ok done =>
    have hcompletion : p.completion.Tidy asks guards guards := tidy_sync fun _ ↦ rfl
    apply hcompletion.bind
    intro completion
    cases completion <;> exact tidy_pure _

theorem tidy_performConfirmed (s : Session) (workflows : String → Option Workflow)
    (id : ReviewableId) (action : Action) (extra : Fields) :
    (s.performConfirmed workflows id action extra).Tidy asks guards guards := by
  apply (tidy_ensureClaimed mild s id).bind
  intro claimed
  cases claimed with
  | false => exact tidy_pure _
  | true => cases workflowOf workflows action with
    | error fault => exact tidy_pure _
    | ok workflow => cases workflow with
      | none => exact (tidy_send mild s id action extra).map _
      | some workflow => exact tidy_performByWorkflow mild s workflow id action extra

theorem tidy_performAsking (s : Session) (message : String)
    (workflows : String → Option Workflow) (id : ReviewableId) (action : Action) (extra : Fields) :
    (s.performAsking message workflows id action extra).Tidy asks guards guards := by
  apply (tidy_ensureClaimed mild s id).bind
  intro claimed
  cases claimed with
  | false => exact tidy_pure _
  | true =>
    apply (tidy_query (mild (.confirm message) trivial)).bind
    intro confirmed
    cases confirmed with
    | true => exact tidy_performConfirmed mild s workflows id action extra
    | false => exact tidy_pure _

theorem tidy_performFilling (s : Session) (form : String) (workflows : String → Option Workflow)
    (id : ReviewableId) (action : Action) (extra : Fields) :
    (s.performFilling form workflows id action extra).Tidy asks guards guards := by
  unfold performFilling
  split
  · apply (tidy_ensureClaimed mild s id).bind
    intro claimed
    cases claimed with
    | false => exact tidy_pure _
    | true =>
      apply tidy_withCopy
      intro r
      apply (tidy_query (mild (.collect form r action) trivial)).bind
      intro entered
      cases entered with
      | none => exact tidy_pure _
      | some entered => exact tidy_performConfirmed mild s workflows id action _
  · exact tidy_pure _

/-- All of an action that comes after its guard was taken. -/
theorem tidy_performMarked (s : Session) (workflows : String → Option Workflow)
    (id : ReviewableId) (action : Action) (extra : Fields) :
    (s.performMarked workflows id action extra).Tidy asks guards guards := by
  unfold performMarked
  cases workflowOf workflows action with
  | error fault => exact tidy_pure _
  | ok _ =>
    dsimp only
    split
    · exact tidy_performAsking mild s _ workflows id action extra
    · exact tidy_performFilling mild s _ workflows id action extra
    · exact tidy_performConfirmed mild s workflows id action extra

theorem tidy_loadQueue (s : Session) : s.loadQueue.Tidy asks guards guards := by
  apply (tidy_call (mild (.call .list) trivial)).bind
  intro reply
  cases reply with
  | ok items => exact (tidy_onStore (Store.unmarked_replaceAll items)).map _
  | error fault => exact tidy_pure _

/-- An event is heard without a question, and sets no marker. -/
theorem tidy_applyEvent (s : Session) (event : Event) :
    (s.applyEvent event).Tidy asks guards guards := by
  cases event with
  | claimTransfer event =>
    have hunmarked := Store.unmarked_setTopicClaim event.topic event.claim
    exact (tidy_onStore hunmarked).map _
  | actionCompleted event =>
    exact (tidy_onStore (Store.unmarked_applyActionCompleted event)).map _
  | resync => exact (tidy_loadQueue mild s).map _

end Parts

/-! ## Errands -/

section Guarded

variable {asks : Query → List ReviewableId → Prop} {id : ReviewableId}
  (mild : ∀ query : Query, query.IsMild → asks query [id])

include mild

/-- An action starts without a guard and leaves none. -/
theorem tidy_perform (s : Session) (action : Action) (extra : Fields) :
    (s.perform id action extra).Tidy asks [] [] :=
  tidy_withUpdate (tidy_performMarked mild s s.workflow? id action extra)

/-- An action that is found by its name is performed like every other. -/
theorem tidy_performNamed (s : Session) (name : String) (extra : Fields) :
    (s.performNamed id name extra).Tidy asks [] [] := by
  apply tidy_withCopy
  intro r
  cases r.action? name with
  | none => exact tidy_pure _
  | some action => exact tidy_perform mild s action extra

/-- An edit is saved under a guard, too. -/
theorem tidy_saveEdit (s : Session) (updates : Fields) :
    (s.saveEdit id updates).Tidy asks [] [] := by
  apply tidy_withUpdate
  apply tidy_withCopy
  intro r
  apply (tidy_call (mild (.call (.update id r.version updates.pruned)) trivial)).bind
  intro reply
  cases reply with
  | ok edited => exact (tidy_onStore (Store.unmarked_refresh edited)).map _
  | error fault => exact (tidy_reportFailure fault).map _

end Guarded

/-- What a session can be asked to do. -/
inductive Errand where
  | load
  | hear (event : Event)
  | perform (id : ReviewableId) (action : Action) (extra : Fields)
  | performNamed (id : ReviewableId) (name : String) (extra : Fields)
  /-- Somebody sends a pending action that was handed out. -/
  | send (p : Pending) (more : Fields)
  | saveEdit (id : ReviewableId) (updates : Fields)
  | ensureClaimed (id : ReviewableId)
  | release (r : Reviewable)
  | claim (id : ReviewableId)
  | unclaim (id : ReviewableId)

namespace Errand

def task (s : Session) : Errand → Task Unit
  | .load => s.loadQueue.forget
  | .hear event => s.applyEvent event
  | .perform id action extra => (s.perform id action extra).forget
  | .performNamed id name extra => (s.performNamed id name extra).forget
  | .send p more => (s.dispatch p more).forget
  | .saveEdit id updates => (s.saveEdit id updates).forget
  | .ensureClaimed id => (s.ensureClaimed id).forget
  | .release r => (s.release r).forget
  | .claim id => (s.claim id).forget
  | .unclaim id => (s.unclaim id).forget

/-- What the errand works on under a guard. -/
def target? : Errand → Option ReviewableId
  | .perform id .. => some id
  | .performNamed id .. => some id
  | .saveEdit id _ => some id
  | _ => none

def isUnclaim : Errand → Bool
  | .unclaim _ => true
  | _ => false

/-- What an errand asks, and under which guards. -/
structure Asks (errand : Errand) (query : Query) (guards : List ReviewableId) : Prop where
  guards : guards = errand.target?.toList
  mild : errand.isUnclaim = false → query.IsMild

/-- Every errand is tidy, whatever it is. -/
theorem tidy (s : Session) (errand : Errand) : (errand.task s).Tidy errand.Asks [] [] := by
  have mild : ∀ query : Query, query.IsMild → errand.Asks query errand.target?.toList :=
    fun _ h ↦ ⟨rfl, fun _ ↦ h⟩
  cases errand with
  | load => exact (tidy_loadQueue mild s).forget
  | hear event => exact tidy_applyEvent mild s event
  | perform id action extra => exact (tidy_perform mild s action extra).forget
  | performNamed id name extra => exact (tidy_performNamed mild s name extra).forget
  | send p more => exact (tidy_dispatch mild s p more).forget
  | saveEdit id updates => exact (tidy_saveEdit mild s updates).forget
  | ensureClaimed id => exact (tidy_ensureClaimed mild s id).forget
  | release r => exact (tidy_release mild s r).forget
  | claim id => exact (tidy_claim mild s id).forget
  | unclaim id => exact (tidy_unclaim (fun _ ↦ ⟨rfl, fun h ↦ by cases h⟩) s id).forget

end Errand

end Session

end Moderation
