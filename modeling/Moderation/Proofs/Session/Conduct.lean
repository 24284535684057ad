import Moderation.Proofs.Session.Alone
import Moderation.Proofs.Session.Amid
import Moderation.Proofs.Session.Shift
import Moderation.Proofs.Session.Waiting

/-!
# Conducting a task

A task is run up to its next question, where other tasks may go on, or to its end, by whoever
answers. All ways to run it do the same between two questions, so that what is shown of a task amid
others holds wherever the task is conducted.
-/

namespace Moderation

/-- Somebody who runs tasks to their end: has the state of a session, beside all else that there is,
and answers questions. -/
structure Conductor (W : Type) where
  state : W → Session.State
  withState : W → Session.State → W
  reply : W → (query : Query) → query.Answer × W
  state_withState : ∀ w s, state (withState w s) = s
  withState_state : ∀ w, withState w (state w) = w
  withState_withState : ∀ w s t, withState (withState w s) t = withState w t

namespace Task

variable {α W : Type} {conductor : Conductor W}

/-- Runs a task to its end on a conductor. -/
def conduct (conductor : Conductor W) : Task α → W → α × W
  | done a, w => (a, w)
  | sync change next, w =>
    (next (conductor.state w)).conduct conductor (conductor.withState w (change (conductor.state w)))
  | mark id next, w => match (conductor.state w).store.beginUpdate id with
    | .ok store => (next none).conduct conductor (conductor.withState w { conductor.state w with store })
    | .error fault => (next (some fault)).conduct conductor w
  | unmark id next, w =>
    next.conduct conductor
      (conductor.withState w { conductor.state w with store := (conductor.state w).store.endUpdate id })
  | ask query next, w => (next (conductor.reply w query).1).conduct conductor (conductor.reply w query).2

/-- What is asked and answered while a task is conducted. -/
def conversation (conductor : Conductor W) : Task α → W → List Exchange
  | done _, _ => []
  | sync change next, w =>
    (next (conductor.state w)).conversation conductor
      (conductor.withState w (change (conductor.state w)))
  | mark id next, w => match (conductor.state w).store.beginUpdate id with
    | .ok store =>
      (next none).conversation conductor
        (conductor.withState w { conductor.state w with store })
    | .error fault => (next (some fault)).conversation conductor w
  | unmark id next, w =>
    next.conversation conductor (conductor.withState w
      { conductor.state w with store := (conductor.state w).store.endUpdate id })
  | ask query next, w =>
    let heard := conductor.reply w query
    ⟨query, heard.1, conductor.state w, conductor.state heard.2⟩ ::
      (next heard.1).conversation conductor heard.2

/-- Who conducts a task works on it until it stops, and goes on with the answer. -/
theorem conduct_eq_work (task : Task α) (w : W) (guards : List ReviewableId) :
    task.conduct conductor w = match task.work (conductor.state w) guards with
      | (.ended a, state, _) => (a, conductor.withState w state)
      | (.waits query next, state, _) =>
        let heard := conductor.reply (conductor.withState w state) query
        (next heard.1).conduct conductor heard.2 := by
  induction task generalizing w guards with
  | done a => simp only [conduct, work, conductor.withState_state]
  | sync change next ih =>
    rw [conduct, work, ih _ _ guards]
    simp only [conductor.state_withState, conductor.withState_withState]
  | mark id next ih =>
    rw [conduct, work]
    cases (conductor.state w).store.beginUpdate id with
    | ok store =>
      dsimp only
      rw [ih _ _ (id :: guards)]
      simp only [conductor.state_withState, conductor.withState_withState]
    | error fault => exact ih _ w guards
  | unmark id next ih =>
    rw [conduct, work, ih _ (guards.erase id)]
    simp only [conductor.state_withState, conductor.withState_withState]
  | ask query next ih => simp only [conduct, work, conductor.withState_state]

/-- A task amid others works until it stops, too. -/
theorem amid_eq_work (task : Task α) (others : Nat → Interlude) (state : Session.State)
    (guards : List ReviewableId) :
    task.amid others state = match task.work state guards with
      | (.ended a, state, _) => ⟨a, state, []⟩
      | (.waits query next, state, _) =>
        let exchange : Exchange :=
          ⟨query, (others 0).answers query, state, (others 0).meanwhile state⟩
        let rest := (next exchange.answer).amid (fun n ↦ others (n + 1)) exchange.resumed
        { rest with exchanges := exchange :: rest.exchanges } := by
  induction task generalizing state guards with
  | done a => rfl
  | sync change next ih => exact ih state (change state) guards
  | mark id next ih =>
    rw [amid, work]
    cases state.store.beginUpdate id with
    | ok store => exact ih none _ (id :: guards)
    | error fault => exact ih (some fault) state guards
  | unmark id next ih => exact ih _ (guards.erase id)
  | ask query next ih => rfl

/-- The task of a call stops where work on it stops, with or without a log of what it does. -/
theorem advance_eq_work (task : Task α) (scene : Scene) (guards : List ReviewableId) :
    ((task.advance scene).1, (task.advance scene).2.state) =
      ((task.work scene.state guards).1, (task.work scene.state guards).2.1) := by
  induction task generalizing scene guards with
  | done a => rfl
  | sync change next ih => exact ih scene.state (scene.change change) guards
  | mark id next ih =>
    rw [advance, work]
    cases scene.state.store.beginUpdate id with
    | ok store => exact ih none (scene.withStore store) (id :: guards)
    | error fault => exact ih (some fault) scene guards
  | unmark id next ih =>
    exact ih (scene.withStore (scene.state.store.endUpdate id)) (guards.erase id)
  | ask query next ih => rfl

/-- A task that only asks the backend waits where work on it stops. -/
theorem proceed_eq_work (task : Task Unit) (state : Session.State) (guards : List ReviewableId) :
    task.proceed state = match task.work state guards with
      | (.waits (.call request) next, state, _) => (state, some ⟨request, next⟩)
      | (_, state, _) => (state, none) := by
  induction task generalizing state guards with
  | done a => rfl
  | sync change next ih => exact ih state (change state) guards
  | mark id next ih =>
    rw [proceed, work]
    cases state.store.beginUpdate id with
    | ok store => exact ih none _ (id :: guards)
    | error fault => exact ih (some fault) state guards
  | unmark id next ih => exact ih _ (guards.erase id)
  | ask query next ih => cases query <;> rfl

/-- The first interlude is for the question, and the others are for what comes after it. -/
theorem amid_ask (first : Interlude) (others : Nat → Interlude) (query : Query)
    (next : query.Answer → Task α) (state : Session.State) :
    (ask query next).amid (fun n ↦ n.casesOn first others) state =
      let rest := (next (first.answers query)).amid others (first.meanwhile state)
      { rest with
        exchanges :=
          ⟨query, first.answers query, state, first.meanwhile state⟩ :: rest.exchanges } :=
  rfl

/-- Wherever a task is conducted, it runs as amid others: they answer what the conductor answers,
and leave the state that the conductor leaves. -/
theorem exists_amid_eq_conduct (conductor : Conductor W) (task : Task α) (w : W) :
    ∃ others, task.amid others (conductor.state w) =
      ⟨(task.conduct conductor w).1, conductor.state (task.conduct conductor w).2,
        task.conversation conductor w⟩ := by
  induction task generalizing w with
  | done a => exact ⟨fun _ ↦ ⟨fun query ↦ (conductor.reply w query).1, id⟩, rfl⟩
  | sync change next ih =>
    have h := ih (conductor.state w) (conductor.withState w (change (conductor.state w)))
    rwa [conductor.state_withState] at h
  | mark id next ih =>
    simp only [amid, conduct, conversation]
    cases (conductor.state w).store.beginUpdate id with
    | ok store =>
      have h := ih none (conductor.withState w { conductor.state w with store })
      rwa [conductor.state_withState] at h
    | error fault => exact ih (some fault) w
  | unmark id next ih =>
    have h := ih (conductor.withState w
      { conductor.state w with store := (conductor.state w).store.endUpdate id })
    rwa [conductor.state_withState] at h
  | ask query next ih =>
    obtain ⟨others, hothers⟩ := ih (conductor.reply w query).1 (conductor.reply w query).2
    let first : Interlude :=
      ⟨fun query ↦ (conductor.reply w query).1, fun _ ↦ conductor.state (conductor.reply w query).2⟩
    refine ⟨fun n ↦ n.casesOn first others, ?_⟩
    rw [amid_ask]
    simp only [first, hothers]
    rfl

/-- What a task brings about amid others it brings about with every conductor. -/
theorem Brings.conduct {task : Task α} {w : W}
    {Q : α → Session.State → List Exchange → Prop} (h : task.Brings (conductor.state w) Q) :
    Q (task.conduct conductor w).1 (conductor.state (task.conduct conductor w).2)
      (task.conversation conductor w) := by
  obtain ⟨others, hothers⟩ := exists_amid_eq_conduct conductor task w
  have hamid := h others
  rwa [hothers] at hamid

end Task

/-- Conducts the tasks of a session that is alone: the queue answers requests, and company all else. -/
def Company.conductor (c : Company) : Conductor World where
  state w := w.session
  withState w session := { w with session }
  reply w query := w.answer c query
  state_withState _ _ := rfl
  withState_state _ := rfl
  withState_withState _ _ _ := rfl

theorem Task.alone_eq_conduct {α : Type} (c : Company) (task : Task α) (w : World) :
    task.alone c w = task.conduct c.conductor w := by
  induction task generalizing w with
  | done a => rfl
  | sync change next ih => exact ih w.session _
  | mark id next ih =>
    rw [alone, conduct]
    cases hbegin : w.session.store.beginUpdate id with
    | ok store =>
      simp only [Company.conductor, hbegin]
      exact ih none _
    | error fault =>
      simp only [Company.conductor, hbegin]
      exact ih (some fault) w
  | unmark id next ih => exact ih _
  | ask query next ih => exact ih _ _

end Moderation
