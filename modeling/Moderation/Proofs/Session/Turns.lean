import Moderation.Proofs.Session.Course

/-!
# Taking turns

A task of a call has its turn from an answer to its next question. Between its turns the others have
theirs, and any of them may send. A task is safe if it keeps in each turn to what the others rely
on, whatever they do between its turns as long as they keep to it as well: the dispatch says whether
somebody is sending or has sent, and only who took the right to send asks for the action.
-/

namespace Moderation

/-- What matters to the tasks of a call. -/
structure View where
  slot : Option Nat
  dispatch : Option Dispatch
  stage : Stage
  shared : Bool
  plan : Option (Plan (Except SessionFault Unit))
  told : List (Except SessionFault Completion)
  results : List (Except SessionFault Completion)
  /-- Another task of the call is in the middle of a send. -/
  busy : Bool

def Scene.view (scene : Scene) (busy : Bool) : View where
  slot := scene.slot
  dispatch := scene.slot.bind (scene.state.dispatches[·]?)
  stage := scene.log.stage
  shared := scene.log.isShared
  plan := scene.log.plan?
  told := scene.log.told
  results := scene.log.results
  busy

/-- The task of the call itself, or that of a send beside it. -/
inductive Role where
  | call
  | send

/-- What the dispatch says, by how far the sending has come and by whether somebody is at it. -/
inductive Standing : Stage → Bool → Dispatch → Prop where
  | free {stage : Stage} (free : stage.isTaken = false) : Standing stage false ⟨false, none⟩
  | taken {stage : Stage} (taken : stage.isTaken = true) : Standing stage true ⟨true, none⟩
  | sent (completion : Completion) :
    Standing (.landed completion.result) false ⟨true, some completion⟩

/-- While somebody sends, the right to send is taken and nothing is complete. -/
theorem Standing.eq_of_busy {stage : Stage} {dispatch : Dispatch}
    (standing : Standing stage true dispatch) : dispatch = ⟨true, none⟩ := by
  cases standing
  rfl

/-- The right to send is taken if and only if the action is under way or has landed. -/
theorem Standing.sent_eq {stage : Stage} {busy : Bool} {dispatch : Dispatch}
    (standing : Standing stage busy dispatch) : dispatch.sent = stage.isTaken := by
  cases standing with
  | free free => exact free.symm
  | taken taken => exact taken.symm
  | sent completion => rfl

/-- Before that, nothing is complete. -/
theorem Standing.eq_of_free {stage : Stage} {busy : Bool} {dispatch : Dispatch}
    (standing : Standing stage busy dispatch) (free : stage.isTaken = false) :
    dispatch = ⟨false, none⟩ := by
  cases standing with
  | free => rfl
  | taken taken => simp [taken] at free
  | sent completion => cases free

namespace View

variable {role : Role} {query : Query} {v v' w : View}
  {unsaid : List (Except SessionFault Completion)}

def completion (v : View) : Option Completion := v.dispatch.bind (·.completion)

def after (v : View) (h : Happening) : View :=
  { v with
    stage := v.stage.after h
    shared := v.shared || h.handsOut
    plan := v.plan.or h.plan?
    told := v.told ++ Log.told [h]
    results := v.results ++ Log.results [h] }

/-- The dispatch stands as it should, and it has the completion of the send that succeeded, once the
unsaid results are given out. The task whose turn it is may be in the middle of a send. -/
structure Settled (v : View) (sends : Bool) (unsaid : List (Except SessionFault Completion)) :
    Prop where
  standing : ∀ n, v.slot = some n →
    ∃ dispatch, v.dispatch = some dispatch ∧ Standing v.stage (sends || v.busy) dispatch
  direct : v.slot = none → v.dispatch = none ∧ v.shared = false ∧ v.busy = false
  completed : ∀ completion, .ok completion ∈ v.results ++ unsaid → v.completion = some completion
  said : v.shared = true → ∀ completion, v.completion = some completion →
    .ok completion ∈ v.results ++ unsaid

/-- The task has the right to send: it took it from the dispatch, or there is none. -/
structure Holds (v : View) : Prop where
  alone : v.busy = false
  dispatch : v.dispatch = v.slot.map fun _ ↦ ⟨true, none⟩
  direct : v.slot = none → v.shared = false
  none_ok : ∀ completion, .ok completion ∉ v.results

/-- What no other task touches. -/
structure Keeps (role : Role) (v v' : View) : Prop where
  slot : v'.slot = v.slot
  shared : role = .call → v'.shared = v.shared
  plan : role = .call → v'.plan = v.plan
  told : role = .call → v'.told = v.told

/-- What a task that asks may be sure of later. Nobody else sends meanwhile if it is in the middle
of a send, or if it is the call and has not handed the right out. -/
structure Later (role : Role) (query : Query) (v v' : View) : Prop extends Keeps role v v' where
  stage : query.sends = true ∨ role = .call ∧ v.shared = false → v'.stage = v.stage

/-- The turn of a task begins that asked. -/
structure Resumes (role : Role) (query : Query) (v v' : View) : Prop extends
    Later role query v v' where
  alone : query.sends = true ∨ role = .call ∧ v.shared = false → v'.busy = false
  settled : v'.Settled query.sends []

theorem keeps_refl (role : Role) (v : View) : Keeps role v v :=
  ⟨rfl, fun _ ↦ rfl, fun _ ↦ rfl, fun _ ↦ rfl⟩

/-- What is kept twice is kept. -/
theorem Keeps.trans (first : Keeps role v v') (second : Keeps role v' w) : Keeps role v w where
  slot := second.slot.trans first.slot
  shared h := (second.shared h).trans (first.shared h)
  plan h := (second.plan h).trans (first.plan h)
  told h := (second.told h).trans (first.told h)

theorem Later.still (later : v.Later role query v')
    (h : query.sends = true ∨ role = .call ∧ v.shared = false) :
    query.sends = true ∨ role = .call ∧ v'.shared = false :=
  h.imp_right fun ⟨hrole, hshared⟩ ↦ ⟨hrole, (later.shared hrole).trans hshared⟩

/-- Others may have come in between before an answer is taken. -/
theorem Later.resumes (first : v.Later role query v') (second : v'.Resumes role query w) :
    v.Resumes role query w where
  toKeeps := first.toKeeps.trans second.toKeeps
  stage h := (second.stage (first.still h)).trans (first.stage h)
  alone h := second.alone (first.still h)
  settled := second.settled

/-- A task may end its turn by asking. -/
structure Permits (role : Role) (query : Query) (v : View) : Prop where
  settled : (v.after (.asked query)).Settled query.sends []
  alone : query.sends = true → v.busy = false
  first : query.performs = true → v.stage.isTaken = false
  sends : role = .send → query.sends = true

end View

namespace Scene

variable {scene : Scene} {role : Role} {f : Session.State → Session.State}

/-- A task may change the state in its turn. -/
structure Admits (scene : Scene) (role : Role) (f : Session.State → Session.State) : Prop where
  slot : role = .send ∨ scene.log.isShared = true → (scene.change f).slot = scene.slot
  silent : role = .send → scene.tells f = []
  follows : ∀ h ∈ scene.tells f, ∀ result, scene.log.stage = .landed result →
    h.Follows result

/-- The view changes as the log does. -/
theorem view_happens (scene : Scene) (h : Happening) (busy : Bool) :
    (scene.happens h).view busy = (scene.view busy).after h := by
  simp only [view, happens, View.after, Log.stage_append_singleton]
  simp [Log.isShared, Log.plan?, Log.told, Log.results]

/-- The change creates no dispatch and tells no plan anything. -/
structure Silent (f : Session.State → Session.State) : Prop where
  length : ∀ state, (f state).dispatches.length = state.dispatches.length
  journal : ∀ state, ∃ notes, (f state).journal = state.journal ++ notes ∧
    ∀ n ∈ notes, n.told? = none

theorem silent_id : Silent fun state ↦ state :=
  ⟨fun _ ↦ rfl, fun _ ↦ ⟨[], (List.append_nil _).symm, by simp⟩⟩

theorem Silent.tells (silent : Silent f) : scene.tells f = [] := by
  obtain ⟨notes, hjournal, hnotes⟩ := silent.journal scene.state
  rw [Scene.tells, hjournal, List.drop_left, List.map_eq_nil_iff, List.filterMap_eq_nil_iff]
  exact hnotes

/-- A silent change is seen in the state only. -/
theorem Silent.change_eq (silent : Silent f) :
    scene.change f = { scene with state := f scene.state } := by
  simp [Scene.change, silent.length, silent.tells]

/-- A silent change may be made in every role. -/
theorem Silent.admits (silent : Silent f) (scene : Scene) (role : Role) :
    scene.Admits role f where
  slot _ := by rw [silent.change_eq]
  silent _ := silent.tells
  follows := by simp [silent.tells]

/-- Only the dispatch of the call matters. -/
theorem Silent.view (silent : Silent f) (busy : Bool) :
    (scene.change f).view busy = { scene.view busy with
      dispatch := scene.slot.bind ((f scene.state).dispatches[·]?) } := by
  rw [silent.change_eq]
  rfl

end Scene

namespace Task

variable {α β : Type} {role : Role} {Q : α → View → Prop} {R : β → View → Prop} {scene : Scene}
  {busy : Bool}

/-- The task keeps to what the others rely on, and its result is the one that is wanted. -/
def Safe (role : Role) (Q : α → View → Prop) : Task α → Scene → Bool → Prop
  | done a, scene, busy => Q a (scene.view busy)
  | sync change next, scene, busy =>
    scene.Admits role change ∧ (next scene.state).Safe role Q (scene.change change) busy
  | mark id next, scene, busy => match scene.state.store.beginUpdate id with
    | .ok store => (next none).Safe role Q (scene.withStore store) busy
    | .error fault => (next (some fault)).Safe role Q scene busy
  | unmark id next, scene, busy =>
    next.Safe role Q (scene.withStore (scene.state.store.endUpdate id)) busy
  | ask query next, scene, busy =>
    (scene.view busy).Permits role query ∧
      ∀ answer (scene' : Scene) (busy' : Bool),
        ((scene.view busy).after (.asked query)).Resumes role query (scene'.view busy') →
        (next answer).Safe role Q (scene'.happens (.answered query answer)) busy'

theorem Safe.mono {Q' : α → View → Prop} {task : Task α} (safe : task.Safe role Q scene busy)
    (h : ∀ a v, Q a v → Q' a v) : task.Safe role Q' scene busy := by
  induction task generalizing scene busy with
  | done a => exact h a _ safe
  | sync change next ih => exact ⟨safe.1, ih _ safe.2⟩
  | mark id next ih =>
    unfold Safe at safe ⊢
    split at safe
    · exact ih _ safe
    · exact ih _ safe
  | unmark id next ih => exact ih safe
  | ask query next ih =>
    exact ⟨safe.1, fun answer scene' busy' hresumes ↦
      ih answer (safe.2 answer scene' busy' hresumes)⟩

/-- What follows may build on where the first part came to. -/
theorem Safe.bind {task : Task α} {rest : α → Task β} (first : task.Safe role Q scene busy)
    (second : ∀ a scene busy, Q a (scene.view busy) → (rest a).Safe role R scene busy) :
    (task >>= rest).Safe role R scene busy := by
  change (task.bind rest).Safe role R scene busy
  induction task generalizing scene busy with
  | done a => exact second a scene busy first
  | sync change next ih => exact ⟨first.1, ih _ first.2⟩
  | mark id next ih =>
    unfold Safe at first
    unfold Task.bind Safe
    split at first
    · exact ih _ first
    · exact ih _ first
  | unmark id next ih => exact ih first
  | ask query next ih =>
    exact ⟨first.1, fun answer scene' busy' hresumes ↦
      ih answer (first.2 answer scene' busy' hresumes)⟩

end Task

/-! ## Turns -/

/-- What is left for the next turn of a task, and what is wanted at its end. -/
def Pause.Rests {α : Type} (role : Role) (Q : α → View → Prop) : Pause α → View → Prop
  | ended a, v => Q a v
  | waits query next, v =>
    (query.performs = true → v.stage = .underWay) ∧ (role = .send → query.sends = true) ∧
      ∀ answer (scene : Scene) (busy : Bool), v.Resumes role query (scene.view busy) →
        (next answer).Safe role Q (scene.happens (.answered query answer)) busy

namespace Pause

variable {α : Type} {role : Role} {Q : α → View → Prop} {v v' : View}

/-- Whatever the others do, the task goes on as it should. -/
theorem Rests.later {query : Query} {next : query.Answer → Task α}
    (rests : (waits query next).Rests role Q v) (later : v.Later role query v') :
    (waits query next).Rests role Q v' := by
  obtain ⟨underWay, sends, rest⟩ := rests
  refine ⟨fun hperforms ↦ ?_, sends, fun answer scene busy hresumes ↦ ?_⟩
  · rw [later.stage (.inl (Query.sends_of_performs hperforms))]
    exact underWay hperforms
  · exact rest answer scene busy (later.resumes hresumes)

end Pause

namespace Scene

variable {scene before middle after : Scene} {role : Role} {busy : Bool}
  {f : Session.State → Session.State}

/-- What a turn leaves as it was. -/
structure Turn (role : Role) (busy : Bool) (before after : Scene) : Prop where
  orderly : after.log.Orderly
  shared : before.log.isShared = true → after.log.isShared = true
  slot : role = .send ∨ before.log.isShared = true → after.slot = before.slot
  frame : role = .send → (before.view busy).Keeps .call (after.view busy)
  stage : busy = true → after.log.stage = before.log.stage

theorem turn_withStore (orderly : scene.log.Orderly) (store : Store) :
    Turn role busy scene (scene.withStore store) where
  orderly
  shared h := h
  slot _ := rfl
  frame _ := View.keeps_refl _ _
  stage _ := rfl

theorem turn_refl (orderly : scene.log.Orderly) : Turn role busy scene scene :=
  turn_withStore orderly scene.state.store

/-- Turns may be taken one after another. -/
theorem Turn.trans (first : Turn role busy before middle) (second : Turn role busy middle after) :
    Turn role busy before after where
  orderly := second.orderly
  shared h := second.shared (first.shared h)
  slot h := (second.slot (h.imp_right first.shared)).trans (first.slot h)
  frame h := (first.frame h).trans (second.frame h)
  stage h := (second.stage h).trans (first.stage h)

/-- A change of the state tells results and nothing else. -/
theorem told_of_mem_tells {h : Happening} (hmem : h ∈ scene.tells f) :
    ∃ result, h = .told result := by
  obtain ⟨result, -, rfl⟩ := List.mem_map.mp hmem
  exact ⟨result, rfl⟩

/-- A change that is admitted is a turn. -/
theorem Admits.turn (admits : scene.Admits role f) (orderly : scene.log.Orderly) :
    Turn role busy scene (scene.change f) where
  orderly := by
    refine orderly.append (List.pairwise_of_forall_mem_list fun h hmem _ _ result hgranted ↦ ?_)
      admits.follows
    obtain ⟨_, rfl⟩ := told_of_mem_tells hmem
    cases hgranted
  shared := Log.isShared_append _
  slot := admits.slot
  frame hrole := by
    refine ⟨admits.slot (.inl hrole), fun _ ↦ ?_, fun _ ↦ ?_, fun _ ↦ ?_⟩
    all_goals
      simp only [view, change, admits.silent hrole, List.append_nil]
  stage _ := Log.stage_append_of_silent fun h hmem ↦ by
    obtain ⟨result, rfl⟩ := told_of_mem_tells hmem
    rfl

/-- A task that asks ends its turn. -/
theorem turn_asked {query : Query} (permits : (scene.view busy).Permits role query)
    (orderly : scene.log.Orderly) : Turn role busy scene (scene.happens (.asked query)) where
  orderly := by
    refine orderly.append_singleton fun result hlanded ↦ ⟨?_, by simp [Happening.result?]⟩
    change query.performs = false
    rw [← Bool.not_eq_true]
    intro hperforms
    have hfree : scene.log.stage.isTaken = false := permits.first hperforms
    rw [hlanded] at hfree
    cases hfree
  shared := Log.isShared_append _
  slot _ := rfl
  frame hrole := by
    have hprivate := Query.handsOut_of_sends (permits.sends hrole)
    rw [view_happens]
    refine ⟨rfl, fun _ ↦ ?_, fun _ ↦ Option.or_none, fun _ ↦ List.append_nil _⟩
    simp [View.after, Happening.handsOut, hprivate]
  stage hbusy := by
    have hsilent : (Happening.asked query).performs = false := by
      rw [← Bool.not_eq_true]
      intro hperforms
      have halone : busy = false := permits.alone (Query.sends_of_performs hperforms)
      simp [halone] at hbusy
    exact (Log.stage_append_singleton _ _).trans (Stage.after_of_silent hsilent _)

/-- A send that comes to its end gives its result out. -/
theorem turn_ended {result : Except SessionFault Completion} (orderly : scene.log.Orderly)
    (leaves : ∀ performed, scene.log.stage = .landed performed → performed.Leaves result) :
    Turn .send busy scene (scene.happens (.ended result)) where
  orderly := by
    refine orderly.append_singleton fun performed hlanded ↦ ⟨rfl, ?_⟩
    rintro _ ⟨⟩
    exact leaves performed hlanded
  shared := Log.isShared_append _
  slot _ := rfl
  frame _ := by
    rw [view_happens]
    exact ⟨rfl, fun _ ↦ Bool.or_false _, fun _ ↦ Option.or_none, fun _ ↦ List.append_nil _⟩
  stage _ := (Log.stage_append_singleton _ _).trans (Stage.after_of_silent rfl _)

/-- A task that is answered begins its turn. -/
theorem turn_answered {query : Query} (orderly : scene.log.Orderly)
    (first : query.performs = true → scene.log.stage = .underWay)
    (alone : busy = true → query.sends = false) (sends : role = .send → query.sends = true)
    (answer : query.Answer) : Turn role busy scene (scene.happens (.answered query answer)) where
  orderly := by
    refine orderly.append_singleton fun result hlanded ↦ ⟨?_, by simp [Happening.result?]⟩
    change query.performs = false
    rw [← Bool.not_eq_true]
    intro hperforms
    rw [first hperforms] at hlanded
    cases hlanded
  shared := Log.isShared_append _
  slot _ := rfl
  frame hrole := by
    have hplan := Happening.plan?_answered (Query.handsOut_of_sends (sends hrole)) answer
    rw [view_happens]
    exact ⟨rfl, fun _ ↦ Bool.or_false _, fun _ ↦ by simp [View.after, hplan],
      fun _ ↦ List.append_nil _⟩
  stage hbusy := by
    have hsilent : (Happening.answered query answer).performs = false :=
      Query.performs_of_not_sends (alone hbusy)
    exact (Log.stage_append_singleton _ _).trans (Stage.after_of_silent hsilent _)

end Scene

namespace Task

variable {α β : Type} {role : Role} {Q : α → View → Prop} {R : β → View → Prop} {scene : Scene}
  {busy : Bool}

/-- A turn of a safe task leaves what the others rely on, and the task is safe in its next turns. -/
theorem Safe.turn {task : Task α} (safe : task.Safe role Q scene busy)
    (orderly : scene.log.Orderly) :
    scene.Turn role busy (task.advance scene).2 ∧
      (task.advance scene).1.Rests role Q ((task.advance scene).2.view busy) ∧
      ∀ query next, (task.advance scene).1 = .waits query next →
        ((task.advance scene).2.view busy).Settled query.sends [] ∧
          (query.sends = true → busy = false) := by
  induction task generalizing scene with
  | done a => exact ⟨Scene.turn_refl orderly, safe, by rintro _ _ ⟨⟩⟩
  | sync change next ih =>
    have hturn : Scene.Turn role busy scene (scene.change change) := safe.1.turn orderly
    obtain ⟨hrest, hrests, hstops⟩ := ih scene.state safe.2 hturn.orderly
    exact ⟨hturn.trans hrest, hrests, hstops⟩
  | mark id next ih =>
    cases hbegin : scene.state.store.beginUpdate id with
    | ok store =>
      simp only [Safe, hbegin] at safe
      simp only [advance, hbegin]
      obtain ⟨hrest, hrests, hstops⟩ := ih none safe orderly
      exact ⟨(Scene.turn_withStore orderly store).trans hrest, hrests, hstops⟩
    | error fault =>
      simp only [Safe, hbegin] at safe
      simp only [advance, hbegin]
      exact ih (some fault) safe orderly
  | unmark id next ih =>
    obtain ⟨hrest, hrests, hstops⟩ := ih safe orderly
    exact ⟨(Scene.turn_withStore orderly _).trans hrest, hrests, hstops⟩
  | ask query next ih =>
    obtain ⟨hpermits, hrest⟩ := safe
    refine ⟨Scene.turn_asked hpermits orderly, ⟨?_, hpermits.sends, ?_⟩, ?_⟩
    · intro hperforms
      obtain ⟨id, action, version, data, rfl⟩ := Query.performs_iff.mp hperforms
      exact Log.stage_append_singleton _ _
    · intro answer scene' busy' hresumes
      refine hrest answer scene' busy' ?_
      rwa [← Scene.view_happens]
    · rintro _ _ ⟨⟩
      refine ⟨?_, hpermits.alone⟩
      rw [advance, Scene.view_happens]
      exact hpermits.settled

end Task

end Moderation
