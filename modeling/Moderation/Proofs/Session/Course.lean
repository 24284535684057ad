import Moderation.Proofs.Session.Log

/-!
# The course of a call

A call that performs an action runs until it asks, and goes on when it is answered. Whoever it hands
the right to send to may send many times: one after another, which is the plan that the call carries
out, and beside the plan and beside each other. Meanwhile other tasks of the session run. A send
that is never answered is one that its workflow gave up.
-/

namespace Moderation

/-- What a plan is told. -/
def Note.told? : Note → Option (Except SessionFault Completion)
  | .sent result => some result
  | _ => none

/-- What the tasks of a call work on. -/
structure Scene where
  state : Session.State
  /-- The number of the dispatch that the call created. -/
  slot : Option Nat
  log : Log

namespace Scene

def happens (scene : Scene) (h : Happening) : Scene := { scene with log := scene.log ++ [h] }

def withStore (scene : Scene) (store : Store) : Scene :=
  { scene with state := { scene.state with store } }

/-- What a change of the state tells the plan. -/
def tells (scene : Scene) (change : Session.State → Session.State) : Log :=
  (((change scene.state).journal.drop scene.state.journal.length).filterMap (·.told?)).map .told

def change (scene : Scene) (change : Session.State → Session.State) : Scene where
  state := change scene.state
  slot :=
    if scene.state.dispatches.length < (change scene.state).dispatches.length then
      some scene.state.dispatches.length
    else scene.slot
  log := scene.log ++ scene.tells change

/-- Other tasks do something. The dispatch of the call is not theirs. -/
def disturb (scene : Scene) (store : Store) (journal : List Note)
    (touch : Nat → Dispatch → Dispatch) (created : List Dispatch) : Scene :=
  { scene with
    state.store := store
    state.journal := journal
    state.dispatches :=
      (scene.state.dispatches.mapIdx fun n d ↦ if scene.slot = some n then d else touch n d) ++
        created }

end Scene

/-- Where a task stops. -/
inductive Pause (α : Type) where
  | ended (value : α)
  | waits (query : Query) (next : query.Answer → Task α)

namespace Pause

variable {α : Type}

/-- The task is in the middle of a send. -/
def sends : Pause α → Bool
  | ended _ => false
  | waits query _ => query.sends

/-- What the log has of the end of a send. -/
def conclusion : Pause (Except SessionFault Completion) → Log
  | ended result => [.ended result]
  | waits .. => []

end Pause

/-- Runs a task until it stops. -/
def Task.advance {α : Type} : Task α → Scene → Pause α × Scene
  | done a, scene => (.ended a, scene)
  | sync change next, scene => (next scene.state).advance (scene.change change)
  | mark id next, scene => match scene.state.store.beginUpdate id with
    | .ok store => (next none).advance (scene.withStore store)
    | .error fault => (next (some fault)).advance scene
  | unmark id next, scene => next.advance (scene.withStore (scene.state.store.endUpdate id))
  | ask query next, scene => (.waits query next, scene.happens (.asked query))

theorem Task.advance_bind {α β : Type} (task : Task α) (rest : α → Task β) (scene : Scene) :
    (task >>= rest).advance scene = match task.advance scene with
      | (.ended a, scene) => (rest a).advance scene
      | (.waits query next, scene) => (.waits query fun answer ↦ next answer >>= rest, scene) := by
  change (task.bind rest).advance scene = _
  induction task generalizing scene with
  | done a => rfl
  | sync change next ih => exact ih _ _
  | mark id next ih =>
    simp only [bind, advance]
    split
    · exact ih none _
    · exact ih (some _) scene
  | unmark id next ih => exact ih _
  | ask query next ih => rfl

structure Course where
  scene : Scene
  call : Pause (Except SessionFault Outcome)
  /-- The sends beside the plan, in the order in which they were started. -/
  sends : List (Pause (Except SessionFault Completion))

namespace Course

/-- What may happen as long as the call is not over. -/
inductive Move where
  /-- The question of the call is answered. -/
  | answer (answers : (query : Query) → query.Answer)
  /-- A send is started, once the right is handed out. -/
  | send (extra more : Fields)
  /-- The question of a send is answered. -/
  | reply (n : Nat) (answers : (query : Query) → query.Answer)
  | disturb (store : Store) (journal : List Note) (touch : Nat → Dispatch → Dispatch)
    (created : List Dispatch)

/-- The call goes on with a task. -/
def proceed (course : Course) (scene : Scene) (task : Task (Except SessionFault Outcome)) :
    Course :=
  { course with call := (task.advance scene).1, scene := (task.advance scene).2 }

/-- A send goes on with a task, the one of the number or a new one. -/
def pursue (course : Course) (n : Nat) (scene : Scene)
    (task : Task (Except SessionFault Completion)) : Course :=
  let (pause, scene) := task.advance scene
  { course with
    scene := { scene with log := scene.log ++ pause.conclusion }
    sends := course.sends.take n ++ pause :: course.sends.drop (n + 1) }

def disturb (course : Course) (store : Store) (journal : List Note)
    (touch : Nat → Dispatch → Dispatch) (created : List Dispatch) : Course :=
  { course with scene := course.scene.disturb store journal touch created }

def start (s : Session) (id : ReviewableId) (action : Action) (extra : Fields)
    (state : Session.State) : Course :=
  let (call, scene) := (s.perform id action extra).advance ⟨state, none, []⟩
  { scene, call, sends := [] }

def step (s : Session) (id : ReviewableId) (action : Action) (course : Course) (move : Move) :
    Course :=
  match course.call with
  | .ended _ => course
  | .waits query next => match move with
    | .answer answers =>
      course.proceed (course.scene.happens (.answered query (answers query))) (next (answers query))
    | .send extra more => match course.scene.slot with
      | some n =>
        if course.scene.log.isShared then
          course.pursue course.sends.length course.scene (s.dispatch ⟨n, id, action, extra⟩ more)
        else course
      | none => course
    | .reply n answers => match course.sends[n]? with
      | some (.waits query next) =>
        course.pursue n (course.scene.happens (.answered query (answers query)))
          (next (answers query))
      | _ => course
    | .disturb store journal touch created => course.disturb store journal touch created

def run (s : Session) (id : ReviewableId) (action : Action) (course : Course)
    (moves : List Move) : Course := moves.foldl (step s id action) course

end Course

end Moderation
