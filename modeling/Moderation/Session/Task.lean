import Moderation.Session.Setup
import Moderation.Store

/-!
# Tasks of a session

A task is what an operation of a session does, taken apart into its steps. It changes the state of
the session, which all tasks of the session share, and it asks the world outside. While it waits
for an answer, other tasks may run; between two questions none does. A marker on a reviewable is
set and taken off by steps of their own, so that whoever runs a task knows which markers it holds.
-/

namespace Moderation

/-- A sent action and what it did to the store. -/
structure Completion where
  result : PerformResult
  /-- The reviewables that the store had and the result removed. -/
  removed : List ReviewableId
  /-- The backend's copy that the store's was refreshed from. -/
  refreshed : Option Reviewable

/-- What a session gives out while it works. -/
inductive Note where
  | change (change : StoreChange)
  /-- A notice to the moderator that something was done. -/
  | success (message : String)
  /-- A notice to the moderator that something went wrong. -/
  | failure (message : String)
  /-- What became of an action that a client workflow sent. -/
  | sent (result : Except SessionFault Completion)

/-- What somebody who may send the pending action does: sends it any number of times, with fields
of its own, and comes to a result. -/
inductive Plan (α : Type) where
  | finish (result : α)
  | send (more : Fields) (next : Except SessionFault Completion → Plan α)

/-- Whether a pending action was sent, and with what outcome. -/
structure Dispatch where
  sent : Bool
  completion : Option Completion
deriving Inhabited

/-- A question to the world outside. -/
inductive Query where
  /-- A request to the backend. -/
  | call (request : Request)
  /-- Asks the moderator for a confirmation. -/
  | confirm (message : String)
  /-- Opens a form; none is the answer of a moderator who closes it. -/
  | collect (form : String) (reviewable : Reviewable) (action : Action)
  /-- Opens the post for editing; the answer is whether it can be edited. -/
  | edit (reviewable : Reviewable)
  /-- Starts the penalty tool on a user; its result is whether there is a penalty now. -/
  | penalize (kind : PenaltyKind) (user : User) (reviewable : Reviewable)
  /-- Starts a client workflow. -/
  | run (workflow : String) (reviewable : Reviewable) (action : Action)

namespace Query

abbrev Answer : Query → Type
  | call request => request.Reply
  | confirm _ => Bool
  | collect .. => Option Fields
  | edit _ => Bool
  | penalize .. => Plan Bool
  | run .. => Plan (Except SessionFault Unit)

end Query

namespace Session

/-- What the tasks of a session share. -/
structure State where
  store : Store
  /-- The pending actions that were handed to client workflows, by number. -/
  dispatches : List Dispatch
  /-- What was given out so far. -/
  journal : List Note
deriving Inhabited

end Session

inductive Task (α : Type) where
  | done (value : α)
  /-- Changes the state, and goes on with the state as it was before. -/
  | sync (change : Session.State → Session.State) (next : Session.State → Task α)
  /-- Sets the marker on a reviewable, or says why it cannot. -/
  | mark (id : ReviewableId) (next : Option SessionFault → Task α)
  /-- Takes the marker off. -/
  | unmark (id : ReviewableId) (next : Task α)
  | ask (query : Query) (next : query.Answer → Task α)

namespace Task

variable {α β : Type}

def bind : Task α → (α → Task β) → Task β
  | done a, f => f a
  | sync change next, f => sync change fun s ↦ (next s).bind f
  | mark id next, f => mark id fun fault ↦ (next fault).bind f
  | unmark id next, f => unmark id (next.bind f)
  | ask query next, f => ask query fun answer ↦ (next answer).bind f

instance : Monad Task where
  pure := done
  bind := bind

def modify (change : Session.State → Session.State) : Task Unit := sync change fun _ ↦ done ()

def query (q : Query) : Task q.Answer := ask q done

def call (request : Request) : Task request.Reply := ask (.call request) done

/-- An operation on the store, whose changes go into the journal. -/
def onStore (operation : Store → Store.Revision α) : Task α :=
  sync
    (fun s ↦
      let revision := operation s.store
      { s with
        store := revision.store
        journal := s.journal ++ revision.changes.map .change })
    (fun s ↦ done (operation s.store).answer)

def note (n : Note) : Task Unit := modify fun s ↦ { s with journal := s.journal ++ [n] }

def success (message : String) : Task Unit := note (.success message)

def failure (message : String) : Task Unit := note (.failure message)

/-- The session's copy of a reviewable. -/
def lookUp (id : ReviewableId) : Task (Option Reviewable) :=
  sync (fun s ↦ s) fun s ↦ done (s.store.get? id)

/-- Runs a task with the session's copy of a reviewable, if it has one. -/
def withCopy (id : ReviewableId) (body : Reviewable → Task (Except SessionFault α)) :
    Task (Except SessionFault α) := do
  match ← lookUp id with
  | some r => body r
  | none => pure (.error (.unknownReviewable id))

/-- Runs a task while the reviewable is marked. -/
def withUpdate (id : ReviewableId) (body : Task (Except SessionFault α)) :
    Task (Except SessionFault α) :=
  mark id fun
    | some fault => done (.error fault)
    | none => body.bind fun result ↦ unmark id (done result)

end Task

end Moderation
