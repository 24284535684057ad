import Moderation.Command.Listing
import Moderation.Command.Program

/-!
# Sessions at a terminal

A desk is a session whose moderator sits at a terminal: notices are printed, confirmations are
asked for and answered in a line, and forms are filled in beforehand. There is no penalty tool, no
editor and no client workflow.
-/

namespace Moderation.Command

/-- The path part of a server's address. -/
def addressPath (address : String) : String :=
  let rec afterScheme : List Char → Option (List Char)
    | ':' :: '/' :: '/' :: rest => some rest
    | _ :: rest => afterScheme rest
    | [] => none
  String.ofList (((afterScheme address.toList).getD []).dropWhile (· != '/'))

/-- A server and the client that speaks to it. -/
structure Connection where
  server : String
  client : Http.Client

namespace Connection

def create (server : String) (actor : User) : Connection :=
  ⟨server, .create actor (addressPath server)⟩

/-- How the client reaches the server for one request. A client that cannot make its requests
does not try. -/
def reach (c : Connection) (request : Http.Request) : Program Http.Client.Link := do
  if c.client.hasHeaders then
    let response ← Program.need (.exchange c.server request)
    pure fun _ ↦ response
  else pure .unreachable

def send (c : Connection) (request : Request) : Program request.Reply := do
  let link ← c.reach (c.client.encode request)
  pure (c.client.send link (← Program.clock) request)

/-- Opens the event stream. -/
def connect (c : Connection) : Program (Except BackendFault Unit) := do
  let link ← c.reach c.client.eventsRequest
  pure (c.client.connect link (← Program.clock))

end Connection

structure Desk where
  connection : Connection
  session : Session
  /-- What is entered in each form; nothing in one that is closed. -/
  forms : List (String × Option Fields)
  /-- Whether successes are passed over. -/
  quiet : Bool
  assumeYes : Bool

namespace Desk

def isYes (line : String) : Bool :=
  let word := String.ofList ((Text.trim line.toList).map Char.toLower)
  word == "y" || word == "yes"

def confirm (d : Desk) (message : String) : Program Bool := do
  if d.assumeYes then pure true
  else
    Program.warn (message ++ " [y/N] ")
    pure (isYes (← Program.need .readLine))

def answer (d : Desk) : (query : Query) → Program query.Answer
  | .call request => d.connection.send request
  | .confirm message => d.confirm message
  | .collect form _ _ => pure (d.forms.lookup form).join
  | .edit _ => pure false
  | .penalize .. => pure (.finish false)
  | .run .. => pure (.finish (.ok ()))

/-- Prints a notice. What else is noted stays silent. -/
def printNote (d : Desk) : Note → Program Unit
  | .success message => if d.quiet then pure () else Program.printLine message
  | .failure message => Program.complain message
  | .change _ => pure ()
  | .sent _ => pure ()

/-- Runs a task to its end. The journal keeps everything. -/
def run {α : Type} (d : Desk) : Task α → Session.State → Program (α × Session.State)
  | .done a, s => pure (a, s)
  | .sync change next, s => do
    let changed := change s
    (changed.journal.drop s.journal.length).forM d.printNote
    d.run (next s) changed
  | .mark id next, s => match s.store.beginUpdate id with
    | .ok store => d.run (next none) { s with store }
    | .error fault => d.run (next (some fault)) s
  | .unmark id next, s => d.run next { s with store := s.store.endUpdate id }
  | .ask query next, s => do d.run (next (← d.answer query)) s

/-- What a change means to somebody who watches the store that it led to. -/
def changeLines (store : Store) : StoreChange → List String
  | .updated id => match store.get? id with
    | some r =>
      ["updated  " ++ toString id ++ "  v" ++ toString r.version ++ "  claimed by " ++
        claimLabel r.claim]
    | none => []
  | .removed ids => ids.map fun id ↦ "removed  " ++ toString id
  | .counts counts => (counts.reviewables.map fun n ↦ "pending  " ++ toString n).toList
  | .reloaded => ["reloaded " ++ toString store.size ++ " reviewable(s)"]

end Desk

/-- A desk that follows the event stream. -/
structure Watcher where
  desk : Desk
  state : Session.State
  live : Live
  decoder : EventStream.Decoder

namespace Watcher

def start (desk : Desk) (state : Session.State) : Watcher :=
  ⟨desk, state, (Live.create Live.defaultCapacity).hold, .empty⟩

/-- Deals with one delivery and prints what it changed. -/
def apply (w : Watcher) (delivery : Mailbox.Delivery Event) : Program Watcher := do
  let ((), state) ← w.desk.run (w.desk.session.receive delivery) { w.state with journal := [] }
  for note in state.journal do
    match note with
    | .change change => Program.printLines (Desk.changeLines state.store change)
    | _ => pure ()
  pure { w with state }

/-- Takes a piece of the stream in. -/
def receive (w : Watcher) (chunk : List UInt8) : Program Watcher := do
  let (frames, decoder) := w.decoder.push chunk
  let live := (frames.filterMap EventStream.Frame.event?).foldl Live.publish w.live
  let (deliveries, live) := live.take
  deliveries.foldlM apply { w with live, decoder }

/-- The stream ends. -/
def close : Program Unit := Program.printLine "Event stream closed."

end Watcher

end Moderation.Command
