import Moderation.Proofs.Session.Conduct
import Moderation.Proofs.Session.Payload
import Moderation.Rehearsal.Run

/-!
# Rehearsed tasks

A rehearsal conducts the tasks of its session, and the script answers. So what holds of a task amid
others holds of it in a rehearsal, where the others are whatever the script has done before it
answers. The log of a rehearsal only grows until it is taken out. Everything that the backend is
asked for stands in it, in order, and so does everything that is done meanwhile. Of the questions to
the moderator and the tools that is not so, as some scripts answer them unasked.
-/

namespace Moderation

/-- How the log shows that a question was asked, if it has to. -/
def Query.logged : Query → List Rehearsal.Entry
  | .call request => [.query (.call request)]
  | _ => []

namespace Rehearsal

variable {α : Type} {script : Script} {nested : List Op → State → State}

/-- Conducts the tasks of a rehearsal: the script answers. -/
def Script.conductor (script : Script) (nested : List Op → State → State) : Conductor State where
  state w := w.session
  withState w session := { w with session }
  reply w query := answer script nested (w.collect script) query
  state_withState _ _ := rfl
  withState_state _ := rfl
  withState_withState _ _ _ := rfl

theorem runTask_eq_conduct (task : Task α) (w : State) :
    runTask script nested task w = task.conduct (script.conductor nested) w := by
  induction task generalizing w with
  | done a => rfl
  | sync change next ih => exact ih w.session _
  | mark id next ih =>
    rw [runTask, Task.conduct]
    cases hbegin : w.session.store.beginUpdate id with
    | ok store =>
      simp only [Script.conductor, hbegin]
      exact ih none _
    | error fault =>
      simp only [Script.conductor, hbegin]
      exact ih (some fault) w
  | unmark id next ih => exact ih _
  | ask query next ih => exact ih _ _

/-- A rehearsal works on a task until it stops, and goes on when the script has answered. -/
theorem runTask_eq_work (task : Task α) (w : State) (guards : List ReviewableId) :
    runTask script nested task w = match task.work w.session guards with
      | (.ended a, session, _) => (a, { w with session })
      | (.waits query next, session, _) =>
        let heard := answer script nested ({ w with session }.collect script) query
        runTask script nested (next heard.1) heard.2 := by
  simp only [runTask_eq_conduct]
  exact Task.conduct_eq_work task w guards

/-- A rehearsed task runs as amid others, who do what the script has done before it answers. -/
theorem exists_amid_eq_runTask (task : Task α) (w : State) :
    ∃ others, task.amid others w.session =
      ⟨(runTask script nested task w).1, (runTask script nested task w).2.session,
        task.conversation (script.conductor nested) w⟩ := by
  rw [runTask_eq_conduct]
  exact Task.exists_amid_eq_conduct (script.conductor nested) task w

/-- What a task brings about amid others it brings about in a rehearsal. -/
theorem brings_runTask {task : Task α} {w : State}
    {Q : α → Session.State → List Exchange → Prop} (h : task.Brings w.session Q) :
    Q (runTask script nested task w).1 (runTask script nested task w).2.session
      (task.conversation (script.conductor nested) w) := by
  rw [runTask_eq_conduct]
  exact Task.Brings.conduct h

/-- After the log of the one the log of the other has these entries, maybe with others between. -/
def State.Logs (before : State) (entries : List Entry) (after : State) : Prop :=
  ∃ added, after.log = before.log ++ added ∧ entries.Sublist added

namespace State

variable {w between after : State} {entries more : List Entry}

theorem Logs.of_log_eq (h : after.log = w.log) : w.Logs [] after :=
  ⟨[], h.trans (List.append_nil _).symm, .slnil⟩

theorem Logs.trans (first : w.Logs entries between) (second : between.Logs more after) :
    w.Logs (entries ++ more) after := by
  obtain ⟨added, hadded, hentries⟩ := first
  obtain ⟨later, hlater, hmore⟩ := second
  exact ⟨added ++ later, by rw [hlater, hadded, List.append_assoc], hentries.append hmore⟩

theorem Logs.forget (h : w.Logs entries after) : w.Logs [] after := by
  obtain ⟨added, hadded, -⟩ := h
  exact ⟨added, hadded, List.nil_sublist added⟩

theorem logs_record (w : State) (entry : Entry) : w.Logs [entry] (w.record entry) :=
  ⟨w.listener.deliveries.map logDelivery ++ [entry], List.append_assoc _ _ _,
    List.sublist_append_right _ _⟩

theorem logs_takeNote (w : State) (note : Note) : w.Logs [] (w.takeNote script note) := by
  have hnotice (entry : Entry) : w.Logs [] (if script.unattended then w else w.record entry) := by
    split
    · exact .of_log_eq rfl
    · exact (w.logs_record entry).forget
  cases note with
  | change change => exact .of_log_eq rfl
  | success message => exact hnotice (.success message)
  | failure message => exact hnotice (.failure message)
  | sent result => exact (w.logs_record (.sent result)).forget

theorem logs_collect (script : Script) (w : State) : w.Logs [] (w.collect script) := by
  have hnotes (notes : List Note) (w : State) : w.Logs [] (notes.foldl (takeNote script) w) := by
    induction notes generalizing w with
    | nil => exact .of_log_eq rfl
    | cons note rest ih => exact (w.logs_takeNote note).trans (ih _)
  exact (hnotes w.session.journal w).trans (.of_log_eq rfl)

end State

open State

section Nested

variable (hnested : ∀ (ops : List Op) (w : State), w.Logs [] (nested ops w))
include hnested

/-- Whoever is asked, the log grows, and a request is in it before anything else is done. -/
theorem logs_answer (script : Script) (w : State) (query : Query) :
    w.Logs query.logged (answer script nested w query).2 := by
  have hasked (entry : Entry) (ops : List Op) : w.Logs [entry] (nested ops (w.record entry)) :=
    (w.logs_record entry).trans (hnested ops _)
  have htaken {β : Type} (entry : Entry) {select : Reply → Option β} {found : Option β}
      {after : State} (h : (w.record entry).takeReply select = (found, after)) :
      w.Logs [entry] after := by
    have hrecord : w.Logs [entry] ((w.record entry).takeReply select).2 := w.logs_record entry
    rwa [h] at hrecord
  cases query with
  | call request =>
    simp only [answer]
    split
    · exact w.logs_record _
    · split
      · rename_i hreply
        exact (htaken _ hreply).trans (hnested _ _)
      · rename_i hreply
        exact htaken _ hreply
  | confirm message =>
    simp only [answer]
    split
    · exact .of_log_eq rfl
    · split
      · rename_i hreply
        exact ((htaken _ hreply).trans (hnested _ _)).forget
      · rename_i hreply
        exact (htaken _ hreply).forget
  | collect name r action =>
    simp only [answer]
    split
    · split
      · exact .of_log_eq rfl
      · exact (hasked _ _).forget
    · exact .of_log_eq rfl
  | edit r | penalize kind user r | run name r action =>
    simp only [answer]
    split
    · exact (hasked _ _).forget
    · exact .of_log_eq rfl

/-- While a task runs the log grows, and all its requests get into it one after another. -/
theorem logs_runTask (task : Task α) (w : State) :
    w.Logs ((task.conversation (script.conductor nested) w).flatMap (·.query.logged))
      (runTask script nested task w).2 := by
  induction task generalizing w with
  | done a => exact .of_log_eq rfl
  | sync change next ih => exact ih w.session { w with session := change w.session }
  | mark id next ih =>
    rw [runTask, Task.conversation]
    cases hbegin : w.session.store.beginUpdate id with
    | ok store =>
      simp only [Script.conductor, hbegin]
      exact ih none (w.withStore store)
    | error fault =>
      simp only [Script.conductor, hbegin]
      exact ih (some fault) w
  | unmark id next ih => exact ih (w.withStore (w.session.store.endUpdate id))
  | ask query next ih =>
    have hquery := (w.logs_collect script).trans (logs_answer hnested script _ query)
    exact hquery.trans (ih _ _)

theorem logs_step (w : State) (op : Op) : w.Logs [] (step script nested w op).2 := by
  have htask {β : Type} (task : Task β) (w : State) :
      w.Logs [] (runTask script nested task w).2 := (logs_runTask hnested task w).forget
  have hdrop (w : State) (name : String) : w.Logs [] (w.dropMarker name) := by
    unfold dropMarker
    split <;> exact .of_log_eq rfl
  cases op with
  | insert | replaceAll | refresh | remove | setClaim | setTopicClaim | applyCounts
  | ensureClaimed | claim | unclaim | release | perform | performNamed | saveEdit | loadQueue =>
    exact htask _ w
  | get | inspect | snapshot | policy | policyOfCopy | setListing | addReply | subscribe
  | unsubscribe | isSubscribed | hold | unreadable => exact .of_log_eq rfl
  | beginUpdate id name =>
    simp only [step]
    split
    · exact hdrop (w.withStore _) name
    · exact .of_log_eq rfl
  | endUpdate name => exact hdrop w name
  | releaseCopy id =>
    simp only [step]
    split
    · exact htask _ w
    · exact .of_log_eq rfl
  | letGo =>
    simp only [step]
    split <;> exact .of_log_eq rfl
  | apply channel payload =>
    simp only [step]
    split
    · exact .of_log_eq rfl
    · exact .of_log_eq rfl
    · exact htask _ w
  | publish messages =>
    simp only [step]
    split
    · exact .of_log_eq rfl
    · exact htask _ _

end Nested

/-- The operation that an entry says was done meanwhile. -/
def Entry.done? : Entry → Option Op
  | .meanwhile op _ => some op
  | _ => none

/-- Whatever is done before an answer is logged after it was done, one after another. -/
theorem logs_done {depth : Nat} (hbelow : ∀ ops w, State.Logs w [] (meanwhile script depth ops w))
    (ops : List Op) (w : State) :
    ∃ entries, entries.map Entry.done? = ops.map some ∧
      w.Logs entries (meanwhile script (depth + 1) ops w) := by
  induction ops generalizing w with
  | nil => exact ⟨[], rfl, .of_log_eq rfl⟩
  | cons op rest ih =>
    let stepped := step script (meanwhile script depth) w op
    let entry : Entry := .meanwhile op stepped.1
    have hstep : w.Logs [entry] ((stepped.2.collect script).record entry) :=
      ((logs_step hbelow w op).trans (stepped.2.logs_collect script)).trans (logs_record _ entry)
    obtain ⟨entries, hdone, hrest⟩ := ih ((stepped.2.collect script).record entry)
    exact ⟨entry :: entries, congrArg (some op :: ·) hdone, hstep.trans hrest⟩

theorem logs_meanwhile (depth : Nat) (ops : List Op) (w : State) :
    w.Logs [] (meanwhile script depth ops w) := by
  induction depth generalizing ops w with
  | zero => exact .of_log_eq rfl
  | succ depth ih =>
    obtain ⟨entries, -, hdone⟩ := logs_done ih ops w
    exact hdone.forget

/-- What is taken out when something was done begins with what was in the log before, and has what
was logged of it. -/
theorem logs_perform {w : State} {op : Op} {entries : List Entry}
    (h : w.Logs entries (step script (meanwhile script depthBound) w op).2) :
    ∃ added, (perform script w op).2.1 = w.log ++ added ∧ entries.Sublist added := by
  let stepped := (step script (meanwhile script depthBound) w op).2
  have hflush : (stepped.collect script).Logs [] (stepped.collect script).flush :=
    ⟨_, rfl, List.nil_sublist _⟩
  obtain ⟨added, hadded, hentries⟩ := (h.trans (stepped.logs_collect script)).trans hflush
  rw [List.append_nil, List.append_nil] at hentries
  exact ⟨added, hadded, hentries⟩

/-- A claim that is rehearsed ends as every claim does, and the log shows the request for it. -/
theorem perform_ensureClaimed (script : Script) (id : ReviewableId) (w : State) :
    let after := step script (meanwhile script depthBound) w (.ensureClaimed id)
    let exchanges := (script.session.ensureClaimed id).conversation
      (script.conductor (meanwhile script depthBound)) w
    script.session.Claiming id w.session after.1 after.2.session exchanges ∧
      ∃ added, (perform script w (.ensureClaimed id)).2.1 = w.log ++ added ∧
        (exchanges.flatMap (·.query.logged)).Sublist added :=
  ⟨brings_runTask (script.session.brings_ensureClaimed id w.session),
    logs_perform (logs_runTask (logs_meanwhile depthBound) _ w)⟩

/-- An action that is rehearsed sends what every session sends, and the log shows it. -/
theorem perform_action (script : Script) (id : ReviewableId) (action : Action) (extra : Fields)
    (w : State) :
    let exchanges := (script.session.perform id action extra).conversation
      (script.conductor (meanwhile script depthBound)) w
    (∀ x ∈ exchanges, x.Bears script.session id action (extra.withEntered exchanges)) ∧
      ∃ added, (perform script w (.perform id action extra)).2.1 = w.log ++ added ∧
        (exchanges.flatMap (·.query.logged)).Sublist added :=
  ⟨brings_runTask (script.session.brings_perform_bears id action extra w.session),
    logs_perform (logs_runTask (logs_meanwhile depthBound) _ w)⟩

end Rehearsal

end Moderation
