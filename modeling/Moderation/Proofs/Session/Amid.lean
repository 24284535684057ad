import Moderation.Proofs.Session.Log
import Moderation.Proofs.Store

/-!
# A task amid others

While a task waits for an answer the other tasks of the session run, and they may do anything to the
state. So what a task has read is good until its next question. A run is told by its exchanges: what
was asked and answered, and how the state was at the one and at the other.
-/

namespace Moderation

namespace Session.State

variable {α : Type}

/-- The state after an operation on the store. -/
def revised (state : State) (revision : Store.Revision α) : State :=
  { state with
    store := revision.store
    journal := state.journal ++ revision.changes.map .change }

def noted (state : State) (n : Note) : State := { state with journal := state.journal ++ [n] }

end Session.State

/-- What happens while a task waits. -/
structure Interlude where
  answers : (query : Query) → query.Answer
  meanwhile : Session.State → Session.State

/-- A question of a task, with the state in which it was asked and the one in which the task went
on. -/
structure Exchange where
  query : Query
  answer : query.Answer
  asked : Session.State
  resumed : Session.State

/-- A task that came to its end. -/
structure Passage (α : Type) where
  result : α
  state : Session.State
  exchanges : List Exchange

namespace Task

variable {α β : Type}

/-- Runs a task to its end, with an interlude at each question. -/
def amid (others : Nat → Interlude) : Task α → Session.State → Passage α
  | done a, state => ⟨a, state, []⟩
  | sync change next, state => (next state).amid others (change state)
  | mark id next, state => match state.store.beginUpdate id with
    | .ok store => (next none).amid others { state with store }
    | .error fault => (next (some fault)).amid others state
  | unmark id next, state => next.amid others { state with store := state.store.endUpdate id }
  | ask query next, state =>
    let exchange : Exchange :=
      ⟨query, (others 0).answers query, state, (others 0).meanwhile state⟩
    let rest := (next exchange.answer).amid (fun n ↦ others (n + 1)) exchange.resumed
    { rest with exchanges := exchange :: rest.exchanges }

theorem amid_bind (task : Task α) (rest : α → Task β) (others : Nat → Interlude)
    (state : Session.State) :
    (task >>= rest).amid others state =
      let first := task.amid others state
      let later (n : Nat) := others (n + first.exchanges.length)
      let second := (rest first.result).amid later first.state
      { second with exchanges := first.exchanges ++ second.exchanges } := by
  change (task.bind rest).amid others state = _
  induction task generalizing others state with
  | done a => rfl
  | sync change next ih => exact ih state others (change state)
  | mark id next ih =>
    simp only [bind, amid]
    split
    · exact ih none others _
    · exact ih (some _) others state
  | unmark id next ih => exact ih others _
  | ask query next ih =>
    simp only [bind, amid, ih, List.length_cons, List.cons_append, Nat.add_assoc]

/-- What holds of the exchanges at every question that might be asked holds of those of a run. -/
theorem exchanges_amid {others : Nat → Interlude} {p : Exchange → Prop}
    (h : ∀ n query state,
      p ⟨query, (others n).answers query, state, (others n).meanwhile state⟩)
    (task : Task α) (state : Session.State) : ∀ x ∈ (task.amid others state).exchanges, p x := by
  induction task generalizing others state with
  | done a => simp [amid]
  | sync change next ih => exact ih state h (change state)
  | mark id next ih =>
    simp only [amid]
    split
    · exact ih none h _
    · exact ih (some _) h state
  | unmark id next ih => exact ih h _
  | ask query next ih =>
    intro x hx
    rcases List.mem_cons.mp hx with rfl | hrest
    · exact h 0 query state
    · exact ih _ (fun n ↦ h (n + 1)) _ x hrest

/-- Runs a task to its end while the others do nothing. -/
def undisturbed (answers : Nat → (query : Query) → query.Answer) (task : Task α)
    (state : Session.State) : Passage α :=
  task.amid (fun n ↦ ⟨answers n, fun state ↦ state⟩) state

/-! ## What a task brings about -/

/-- Whatever is answered and whatever the others do, this holds in the end of the result of the
task, of the state and of the exchanges. -/
def Brings (task : Task α) (before : Session.State)
    (Q : α → Session.State → List Exchange → Prop) : Prop :=
  ∀ others, Q (task.amid others before).result (task.amid others before).state
    (task.amid others before).exchanges

variable {before : Session.State} {Q Q' : α → Session.State → List Exchange → Prop}
  {id : ReviewableId}

theorem Brings.mono {task : Task α} (h : task.Brings before Q)
    (weaker : ∀ a state xs, Q a state xs → Q' a state xs) : task.Brings before Q' :=
  fun others ↦ weaker _ _ _ (h others)

theorem brings_bind {R : β → Session.State → List Exchange → Prop} {task : Task α}
    {rest : α → Task β} (first : task.Brings before Q)
    (second : ∀ a state xs, Q a state xs →
      (rest a).Brings state fun b after ys ↦ R b after (xs ++ ys)) :
    (task >>= rest).Brings before R := by
  intro others
  rw [amid_bind]
  exact second _ _ _ (first others) _

theorem brings_pure {a : α} (h : Q a before []) : (pure a : Task α).Brings before Q :=
  fun _ ↦ h

theorem brings_map {f : α → β} {task : Task α} {R : β → Session.State → List Exchange → Prop}
    (h : task.Brings before fun a ↦ R (f a)) :
    (task >>= fun a ↦ pure (f a)).Brings before R :=
  brings_bind h fun _ _ xs hxs ↦ brings_pure (xs.append_nil.symm ▸ hxs)

theorem brings_lookUp {rest : Option Reviewable → Task α}
    (h : (rest (before.store.get? id)).Brings before Q) : (lookUp id >>= rest).Brings before Q := h

theorem brings_onStore {operation : Store → Store.Revision β} {rest : β → Task α}
    (h : (rest (operation before.store).answer).Brings
      (before.revised (operation before.store)) Q) :
    (onStore operation >>= rest).Brings before Q := h

theorem brings_note {n : Note} {rest : Unit → Task α} (h : (rest ()).Brings (before.noted n) Q) :
    (note n >>= rest).Brings before Q := h

theorem brings_query {query : Query} {rest : query.Answer → Task α}
    (h : ∀ answer resumed, (rest answer).Brings resumed fun a after xs ↦
      Q a after (⟨query, answer, before, resumed⟩ :: xs)) :
    (Task.query query >>= rest).Brings before Q :=
  fun others ↦ h _ _ fun n ↦ others (n + 1)

theorem brings_call {request : Request} {rest : request.Reply → Task α}
    (h : ∀ reply resumed, (rest reply).Brings resumed fun a after xs ↦
      Q a after (⟨.call request, reply, before, resumed⟩ :: xs)) :
    (call request >>= rest).Brings before Q := brings_query h

theorem brings_withCopy {body : Reviewable → Task (Except SessionFault α)}
    {Q : Except SessionFault α → Session.State → List Exchange → Prop}
    (missing : before.store.get? id = none → Q (.error (.unknownReviewable id)) before [])
    (found : ∀ r, before.store.get? id = some r → (body r).Brings before Q) :
    (withCopy id body).Brings before Q := by
  apply brings_lookUp
  cases hcopy : before.store.get? id with
  | some r => exact found r hcopy
  | none => exact brings_pure (missing hcopy)

/-- The marker is set before the body and taken off after it. -/
theorem brings_withUpdate {body : Task (Except SessionFault α)}
    {Q : Except SessionFault α → Session.State → List Exchange → Prop}
    (refused : ∀ fault, before.store.beginUpdate id = .error fault → Q (.error fault) before [])
    (marked : ∀ store, before.store.beginUpdate id = .ok store →
      body.Brings { before with store } fun a after xs ↦
        Q a { after with store := after.store.endUpdate id } xs) :
    (withUpdate id body).Brings before Q := by
  intro others
  cases hbegin : before.store.beginUpdate id with
  | error fault =>
    simp only [withUpdate, amid, hbegin]
    exact refused fault hbegin
  | ok store =>
    have hrun : (withUpdate id body).amid others before =
        (body >>= fun result ↦ unmark id (done result)).amid others { before with store } := by
      simp only [withUpdate, amid, hbegin]
      rfl
    rw [hrun]
    refine brings_bind (marked store hbegin) (fun a after xs h _ ↦ ?_) others
    rw [← List.append_nil xs] at h
    exact h

end Task

end Moderation
