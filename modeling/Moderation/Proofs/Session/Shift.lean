import Mathlib.Data.List.Perm.Basic
import Moderation.Proofs.Session.Course
import Moderation.Proofs.Session.Errand

/-!
# A session at work

Several errands of a session are under way at a time. Each runs until it asks something, and waits
for the answer while the others run; one that is given up while it waits lets go of its guards. In
between the store is used directly. What an errand asks of the backend lies in the outbox, whatever
becomes of the errand. A reviewable is marked only while a guard is held for it, so no marker stays
behind.
-/

namespace Moderation

def Query.request? : Query → Option Request
  | .call request => some request
  | _ => none

namespace Task

variable {α : Type} {asks : Query → List ReviewableId → Prop} {guards left : List ReviewableId}

/-- Runs a task, which holds some guards, until it stops. -/
def work : Task α → Session.State → List ReviewableId → Pause α × Session.State × List ReviewableId
  | done a, state, guards => (.ended a, state, guards)
  | sync change next, state, guards => (next state).work (change state) guards
  | mark id next, state, guards => match state.store.beginUpdate id with
    | .ok store => (next none).work { state with store } (id :: guards)
    | .error fault => (next (some fault)).work state guards
  | unmark id next, state, guards =>
    next.work { state with store := state.store.endUpdate id } (guards.erase id)
  | ask query next, state, guards => (.waits query next, state, guards)

/-- Where a tidy task stops, and with which guards. -/
def TidyStop (asks : Query → List ReviewableId → Prop) (left : List ReviewableId) :
    Pause α → List ReviewableId → Prop
  | .ended _, guards => guards = left
  | .waits query next, guards => asks query guards ∧ ∀ answer, (next answer).Tidy asks left guards

theorem Tidy.stop {task : Task α} (h : task.Tidy asks left guards) (state : Session.State) :
    TidyStop asks left (task.work state guards).1 (task.work state guards).2.2 := by
  induction task generalizing state guards with
  | done a => exact h
  | sync change next ih => exact ih state (h.2 state) (change state)
  | mark id next ih =>
    unfold work
    split
    · exact ih none h.1 _
    · exact ih (some _) (h.2 _) state
  | unmark id next ih => exact ih h _
  | ask query next ih => exact h

/-- Wherever a tidy task stops, it has a guard for what it marked. -/
theorem Tidy.marked {task : Task α} (h : task.Tidy asks left guards) {state : Session.State}
    {others : ReviewableId → Prop}
    (marked : ∀ id, state.store.isUpdating id = true → id ∈ guards ∨ others id) :
    ∀ id, (task.work state guards).2.1.store.isUpdating id = true →
      id ∈ (task.work state guards).2.2 ∨ others id := by
  induction task generalizing state guards with
  | done a => exact marked
  | sync change next ih =>
    apply ih state (h.2 state)
    intro id hid
    exact marked id (h.1 state id hid)
  | mark target next ih =>
    unfold work
    split
    · rename_i store hbegin
      apply ih none h.1
      intro id hid
      rcases Store.isUpdating_beginUpdate hbegin hid with rfl | hbefore
      · exact .inl List.mem_cons_self
      · exact (marked id hbefore).imp_left (List.mem_cons_of_mem _)
    · exact ih (some _) (h.2 _) marked
  | unmark target next ih =>
    apply ih h
    intro id hid
    obtain ⟨hne, hbefore⟩ := Store.isUpdating_endUpdate hid
    exact (marked id hbefore).imp_left (List.mem_erase_of_ne hne).mpr
  | ask query next ih => exact marked

end Task

namespace Session

/-- An errand that waits for an answer. -/
structure Job where
  errand : Errand
  query : Query
  next : query.Answer → Task Unit
  /-- What it holds guards for. -/
  guards : List ReviewableId

/-- The job goes on as errands do, whatever it is answered. -/
def Job.Tidy (job : Job) : Prop :=
  Task.TidyStop job.errand.Asks [] (.waits job.query job.next) job.guards

/-- A request to the backend, and the errand that it is for. -/
structure Letter where
  errand : Errand
  request : Request

/-- The request is one that the errand makes. -/
def Letter.Proper (letter : Letter) : Prop :=
  letter.errand.isUnclaim = false → (Query.call letter.request).IsMild

structure Shift where
  state : State
  jobs : List Job
  /-- What guards are held for outside of the jobs. -/
  guards : List ReviewableId
  outbox : List Letter

namespace Shift

variable {shift : Shift} {s : Session}

inductive Move where
  | start (errand : Errand)
  /-- The question of a job is answered in any way. -/
  | answer (n : Nat) (answers : (query : Query) → query.Answer)
  /-- A job is given up. -/
  | abandon (n : Nat)
  /-- Somebody uses the store directly. -/
  | touch (move : Store.Move)

/-- A new session. -/
def opened : Shift := ⟨default, [], [], []⟩

/-- Runs the task of an errand until it is over or has to wait. A guard that the task would leave
behind is lost without taking the marker off. -/
def pursue (shift : Shift) (errand : Errand) (task : Task Unit) (guards : List ReviewableId) :
    Shift :=
  match task.work shift.state guards with
  | (.ended (), state, _) => { shift with state }
  | (.waits query next, state, guards) =>
    { shift with
      state
      jobs := shift.jobs ++ [⟨errand, query, next, guards⟩]
      outbox := shift.outbox ++ query.request?.toList.map (⟨errand, ·⟩) }

/-- The shift without one of its jobs. -/
def without (shift : Shift) (n : Nat) : Shift := { shift with jobs := shift.jobs.eraseIdx n }

def step (s : Session) (shift : Shift) : Move → Shift
  | .start errand => shift.pursue errand (errand.task s) []
  | .answer n answers => match shift.jobs[n]? with
    | some job => (shift.without n).pursue job.errand (job.next (answers job.query)) job.guards
    | none => shift
  | .abandon n => match shift.jobs[n]? with
    | some job =>
      { shift.without n with state.store := job.guards.foldl Store.endUpdate shift.state.store }
    | none => shift
  | .touch move =>
    let guarded := Store.Guarded.step ⟨shift.state.store, shift.guards⟩ move
    { shift with
      state.store := guarded.store
      guards := guarded.guards }

def run (s : Session) (shift : Shift) (moves : List Move) : Shift := moves.foldl (step s) shift

/-- Somebody has a guard for the reviewable. -/
def Held (shift : Shift) (id : ReviewableId) : Prop :=
  id ∈ shift.guards ∨ ∃ job ∈ shift.jobs, id ∈ job.guards

/-- What always holds of a session at work. -/
structure Sound (shift : Shift) : Prop where
  marked : ∀ id, shift.state.store.isUpdating id = true → shift.Held id
  jobs : ∀ job ∈ shift.jobs, job.Tidy
  outbox : ∀ letter ∈ shift.outbox, letter.Proper

theorem mem_jobs_iff {n : Nat} {job other : Job} (found : shift.jobs[n]? = some job) :
    other ∈ shift.jobs ↔ other = job ∨ other ∈ (shift.without n).jobs := by
  obtain ⟨hn, rfl⟩ := List.getElem?_eq_some_iff.mp found
  have hperm : (shift.jobs[n] :: shift.jobs.eraseIdx n).Perm shift.jobs :=
    List.getElem_cons_eraseIdx_perm hn
  rw [← hperm.mem_iff, List.mem_cons]
  rfl

/-- A guard is that of one job, or somebody has it without the job. -/
theorem Held.of_found {n : Nat} {job : Job} {id : ReviewableId} (found : shift.jobs[n]? = some job)
    (held : shift.Held id) : id ∈ job.guards ∨ (shift.without n).Held id := by
  rcases held with houtside | ⟨other, hother, hid⟩
  · exact .inr (.inl houtside)
  · rcases (mem_jobs_iff found).mp hother with rfl | hrest
    · exact .inl hid
    · exact .inr (.inr ⟨other, hrest, hid⟩)

theorem Sound.pursue {errand : Errand} {task : Task Unit} {guards : List ReviewableId}
    (marked : ∀ id, shift.state.store.isUpdating id = true → id ∈ guards ∨ shift.Held id)
    (jobs : ∀ job ∈ shift.jobs, job.Tidy) (outbox : ∀ letter ∈ shift.outbox, letter.Proper)
    (tidy : task.Tidy errand.Asks [] guards) : (shift.pursue errand task guards).Sound := by
  have hstop := tidy.stop shift.state
  have hmarked := tidy.marked marked
  unfold Shift.pursue
  generalize task.work shift.state guards = result at hstop hmarked
  obtain ⟨pause, state, guards⟩ := result
  cases pause with
  | ended done =>
    -- The guards of the task are lost here, so it matters that it has none.
    obtain rfl : guards = [] := hstop
    exact ⟨fun id hid ↦ (hmarked id hid).resolve_left List.not_mem_nil, jobs, outbox⟩
  | waits query next =>
    refine ⟨fun id hid ↦ ?_, fun job hjob ↦ ?_, fun letter hletter ↦ ?_⟩
    · rcases hmarked id hid with hown | houtside | ⟨job, hjob, hheld⟩
      · exact .inr ⟨_, List.mem_append_right _ (List.mem_singleton_self _), hown⟩
      · exact .inl houtside
      · exact .inr ⟨job, List.mem_append_left _ hjob, hheld⟩
    · rcases List.mem_append.mp hjob with hbefore | hnew
      · exact jobs job hbefore
      · obtain rfl := List.mem_singleton.mp hnew
        exact hstop
    · rcases List.mem_append.mp hletter with hbefore | hnew
      · exact outbox letter hbefore
      · obtain ⟨request, hrequest, rfl⟩ := List.mem_map.mp hnew
        have hquery : query = .call request := by
          cases query <;> simp_all [Query.request?]
        subst hquery
        exact hstop.1.mild

theorem Sound.step (h : shift.Sound) (s : Session) (move : Move) : (shift.step s move).Sound := by
  cases move with
  | start errand =>
    exact .pursue (fun id hid ↦ .inr (h.marked id hid)) h.jobs h.outbox (errand.tidy s)
  | answer n answers =>
    cases hjob : shift.jobs[n]? with
    | none => simpa only [Shift.step, hjob] using h
    | some job =>
      have htidy := h.jobs job (List.mem_of_getElem? hjob)
      simp only [Shift.step, hjob]
      apply Sound.pursue
      · exact fun id hid ↦ (h.marked id hid).of_found hjob
      · exact fun other hother ↦ h.jobs other ((mem_jobs_iff hjob).mpr (.inr hother))
      · exact h.outbox
      · exact htidy.2 (answers job.query)
  | abandon n =>
    cases hjob : shift.jobs[n]? with
    | none => simpa only [Shift.step, hjob] using h
    | some job =>
      simp only [Shift.step, hjob]
      refine ⟨fun id hid ↦ ?_, fun other hother ↦ ?_, h.outbox⟩
      · obtain ⟨hgone, hbefore⟩ := Store.isUpdating_endUpdates hid
        exact ((h.marked id hbefore).of_found hjob).resolve_left hgone
      · exact h.jobs other ((mem_jobs_iff hjob).mpr (.inr hother))
  | touch move =>
    have hmarked := Store.Guarded.marked_step (g := ⟨shift.state.store, shift.guards⟩) h.marked move
    exact ⟨hmarked, h.jobs, h.outbox⟩

theorem sound_opened : opened.Sound where
  marked id hid := by
    have hempty : opened.state.store.isUpdating id = false := Store.isUpdating_empty id
    simp [hempty] at hid
  jobs _ hjob := absurd hjob List.not_mem_nil
  outbox _ hletter := absurd hletter List.not_mem_nil

theorem Sound.run (h : shift.Sound) (s : Session) (moves : List Move) :
    (shift.run s moves).Sound := by
  induction moves generalizing shift with
  | nil => exact h
  | cons move rest ih => exact ih (h.step s move)

/-- A reviewable is marked only while somebody has a guard for it: an errand that works on it and
waits, or somebody outside. Where nobody has, nothing is marked. -/
theorem markers_have_guards (s : Session) (moves : List Move) :
    let shift := opened.run s moves
    (∀ id, shift.state.store.isUpdating id = true → shift.Held id) ∧
      (∀ job ∈ shift.jobs, job.guards = job.errand.target?.toList) ∧
      (shift.guards = [] → (∀ job ∈ shift.jobs, job.errand.target? = none) →
        ∀ id, shift.state.store.isUpdating id = false) := by
  intro shift
  have hsound : shift.Sound := sound_opened.run s moves
  have hguards : ∀ job ∈ shift.jobs, job.guards = job.errand.target?.toList :=
    fun job hjob ↦ (hsound.jobs job hjob).1.guards
  refine ⟨hsound.marked, hguards, fun houtside hidle id ↦ ?_⟩
  by_contra hmarked
  rcases hsound.marked id (by simpa using hmarked) with hheld | ⟨job, hjob, hheld⟩
  · simp [houtside] at hheld
  · simp [hguards job hjob, hidle job hjob] at hheld

/-- An edit marks its reviewable while it waits, and leaves no marker when it is given up. -/
theorem markers_have_guards_of_abandoned_edit :
    let s : Session := ⟨.alice, default, [], [], false, false⟩
    let moves := [.touch (.insert (.plain 1 none)), .start (.saveEdit 1 ∅)]
    (opened.run s moves).state.store.isUpdating 1 = true ∧ (opened.run s moves).Held 1 ∧
      (opened.run s (moves ++ [.abandon 0])).state.store.isUpdating 1 = false := by
  intro s moves
  have hmarked : (opened.run s moves).state.store.isUpdating 1 = true := by decide +kernel
  have hjobs : (opened.run s (moves ++ [.abandon 0])).jobs = [] :=
    List.eq_nil_of_length_eq_zero (by decide +kernel)
  obtain ⟨-, -, hidle⟩ := markers_have_guards s (moves ++ [.abandon 0])
  refine ⟨hmarked, (markers_have_guards s moves).1 1 hmarked, hidle (by decide +kernel) ?_ 1⟩
  simp [hjobs]

end Shift

end Session

end Moderation
