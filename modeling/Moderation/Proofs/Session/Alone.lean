import Moderation.Proofs.Session.Mirror

/-!
# Tasks of a session that is alone

A session that nobody else acts beside asks the queue directly. What the moderator, the tools and the
workflows say is up to them. What a task does to the queue and to the store is stated by what holds
before it and after it, step by step.
-/

namespace Moderation

/-- Answers a request the way a session hears it. A refusal leaves the queue as it is. -/
def Queue.reply (q : Queue) (actor : User) (request : Request) : request.Reply × Queue :=
  match q.serve actor request with
  | .ok granted => (.ok granted.answer, granted.queue)
  | .error refusal => (.error (refusal.fault q), q)

/-- Whom a session works with: the queue, which takes it for an actor, and everybody else that it
asks, who answer one question after another. -/
structure Company where
  actor : User
  answers : Nat → (query : Query) → query.Answer

structure World where
  queue : Queue
  session : Session.State
  /-- The number of questions that were not for the queue. -/
  asked : Nat

namespace World

def withStore (w : World) (store : Store) : World :=
  { w with session := { w.session with store } }

def answer (w : World) (c : Company) : (query : Query) → query.Answer × World
  | .call request =>
    ((w.queue.reply c.actor request).1, { w with queue := (w.queue.reply c.actor request).2 })
  | query => (c.answers w.asked query, { w with asked := w.asked + 1 })

end World

namespace Task

variable {α β : Type} {c : Company}

/-- Runs a task to its end. -/
def alone (c : Company) : Task α → World → α × World
  | .done a, w => (a, w)
  | .sync change next, w => (next w.session).alone c { w with session := change w.session }
  | .mark id next, w => match w.session.store.beginUpdate id with
    | .ok store => (next none).alone c (w.withStore store)
    | .error fault => (next (some fault)).alone c w
  | .unmark id next, w => next.alone c (w.withStore (w.session.store.endUpdate id))
  | .ask query next, w => (next (w.answer c query).1).alone c (w.answer c query).2

/-- Alone, too, a task does its first part and then its second. -/
theorem alone_bind (task : Task α) (rest : α → Task β) (w : World) :
    (task >>= rest).alone c w = (rest (task.alone c w).1).alone c (task.alone c w).2 := by
  change (task.bind rest).alone c w = _
  induction task generalizing w with
  | done a => rfl
  | sync change next ih => exact ih w.session _
  | mark id next ih =>
    simp only [bind, alone]
    split
    · exact ih none _
    · exact ih (some _) w
  | unmark id next ih => exact ih _
  | ask query next ih => exact ih _ _

/-- When a task starts where one thing holds of the queue and the store, another holds in the end of
its result and of what it made of them. -/
def Ensures (c : Company) (P : Queue → Store → Prop) (task : Task α)
    (Q : α → Queue → Store → Prop) : Prop :=
  ∀ w : World, P w.queue w.session.store →
    Q (task.alone c w).1 (task.alone c w).2.queue (task.alone c w).2.session.store

def Keeps (c : Company) (P : Queue → Store → Prop) (task : Task α) : Prop :=
  task.Ensures c P fun _ ↦ P

variable {P P' : Queue → Store → Prop} {Q : α → Queue → Store → Prop}

theorem Ensures.mono {task : Task α} {Q' : α → Queue → Store → Prop} (h : task.Ensures c P Q)
    (before : ∀ q s, P' q s → P q s) (after : ∀ a q s, Q a q s → Q' a q s) :
    task.Ensures c P' Q' :=
  fun w hw ↦ after _ _ _ (h w (before _ _ hw))

/-- What the first part ensures the second may build on. -/
theorem ensures_bind {R : β → Queue → Store → Prop} {task : Task α} {rest : α → Task β}
    (first : task.Ensures c P Q) (second : ∀ a, (rest a).Ensures c (Q a) R) :
    (task >>= rest).Ensures c P R := by
  intro w hw
  rw [alone_bind]
  exact second _ _ (first w hw)

theorem ensures_pure {a : α} (h : ∀ q s, P q s → Q a q s) :
    (pure a : Task α).Ensures c P Q := fun w hw ↦ h w.queue w.session.store hw

theorem ensures_onStore {operation : Store → Store.Revision α}
    (h : ∀ q s, P q s → Q (operation s).answer q (operation s).store) :
    (onStore operation).Ensures c P Q := fun w hw ↦ h w.queue w.session.store hw

theorem ensures_lookUp {id : ReviewableId} {Q : Option Reviewable → Queue → Store → Prop}
    (h : ∀ q s, P q s → Q (s.get? id) q s) : (lookUp id).Ensures c P Q :=
  fun w hw ↦ h w.queue w.session.store hw

/-- A request is granted, with the answer and the queue that this gives, or refused. -/
theorem ensures_call {request : Request} {Q : request.Reply → Queue → Store → Prop}
    (granted : ∀ q s granted, P q s → q.serve c.actor request = .ok granted →
      Q (.ok granted.answer) granted.queue s)
    (refused : ∀ q s refusal, P q s → q.serve c.actor request = .error refusal →
      Q (.error (refusal.fault q)) q s) :
    (call request).Ensures c P Q := by
  intro w hw
  change Q (w.queue.reply c.actor request).1 (w.queue.reply c.actor request).2 w.session.store
  unfold Queue.reply
  cases hserve : w.queue.serve c.actor request with
  | ok result => exact granted w.queue w.session.store result hw hserve
  | error refusal => exact refused w.queue w.session.store refusal hw hserve

/-- A missing copy is reported, and everything stays as it is. -/
theorem ensures_withCopy {id : ReviewableId} {body : Reviewable → Task (Except SessionFault α)}
    {Q : Except SessionFault α → Queue → Store → Prop}
    (missing : ∀ q s, P q s → Q (.error (.unknownReviewable id)) q s)
    (found : ∀ r, (body r).Ensures c (fun q s ↦ P q s ∧ s.get? id = some r) Q) :
    (withCopy id body).Ensures c P Q := by
  refine ensures_bind (Q := fun copy q s ↦ P q s ∧ s.get? id = copy)
    (ensures_lookUp fun q s h ↦ ⟨h, rfl⟩) fun copy ↦ ?_
  cases copy with
  | some r => exact found r
  | none => exact ensures_pure fun q s h ↦ missing q s h.1

theorem keeps_pure (a : α) : (pure a : Task α).Keeps c P := ensures_pure fun _ _ h ↦ h

theorem Keeps.of_imp {task : Task α} (h : task.Keeps c P) (before : ∀ q s, P' q s → P q s) :
    task.Ensures c P' fun _ ↦ P := h.mono before fun _ _ _ hP ↦ hP

theorem keeps_bind {task : Task α} {rest : α → Task β} (first : task.Keeps c P)
    (second : ∀ a, (rest a).Keeps c P) : (task >>= rest).Keeps c P := ensures_bind first second

/-- Steps that leave the store alone keep what holds. -/
theorem keeps_sync {change : Session.State → Session.State} {next : Session.State → Task α}
    (store : ∀ state, (change state).store = state.store) (rest : ∀ state, (next state).Keeps c P) :
    (sync change next).Keeps c P := by
  intro w hw
  refine rest w.session { w with session := change w.session } ?_
  rw [store]
  exact hw

theorem keeps_modify {change : Session.State → Session.State}
    (store : ∀ state, (change state).store = state.store) : (modify change).Keeps c P :=
  keeps_sync store fun _ ↦ keeps_pure ()

theorem keeps_note (n : Note) : (note n).Keeps c P := keeps_modify fun _ ↦ rfl

theorem keeps_lookUp (id : ReviewableId) : (lookUp id).Keeps c P :=
  ensures_lookUp fun _ _ h ↦ h

/-- Nobody but the queue changes the queue. -/
theorem keeps_query {q : Query} (other : ∀ request, q ≠ .call request) : (query q).Keeps c P := by
  intro w hw
  cases q with
  | call request => exact absurd rfl (other request)
  | confirm | collect | edit | penalize | run => exact hw

theorem keeps_withCopy {id : ReviewableId} {body : Reviewable → Task (Except SessionFault α)}
    (h : ∀ r, (body r).Keeps c P) : (withCopy id body).Keeps c P :=
  ensures_withCopy (fun _ _ hP ↦ hP) fun r ↦ (h r).of_imp fun _ _ hP ↦ hP.1

/-- The marker is on while the body runs, and nowhere before and afterwards. -/
theorem keeps_withUpdate {id : ReviewableId} {body : Task (Except SessionFault α)}
    (h : body.Keeps c (Store.Mirrors (some id))) :
    (withUpdate id body).Keeps c (Store.Mirrors none) := by
  intro w hw
  cases hbegin : w.session.store.beginUpdate id with
  | error fault =>
    simp only [withUpdate, alone, hbegin]
    exact hw
  | ok store =>
    have hrun : (withUpdate id body).alone c w =
        (body >>= fun result ↦ unmark id (done result)).alone c (w.withStore store) := by
      simp only [withUpdate, alone, hbegin]
      rfl
    rw [hrun, alone_bind]
    exact (h (w.withStore store) (hw.beginUpdate hbegin)).endUpdate

end Task

end Moderation
