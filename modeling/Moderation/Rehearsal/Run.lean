import Moderation.Rehearsal.Script
import Moderation.Wire.Event

/-!
# Running scripts

A rehearsal carries the state of the session, what is left of the script and a log of all that
happens. Changes of the store reach the log by a mailbox that is emptied whenever something else
is logged, so that a long row of changes loses its beginning.
-/

namespace Moderation.Rehearsal

inductive Entry where
  | change (change : StoreChange)
  /-- So many changes were lost. -/
  | missed (count : Nat)
  | success (message : String)
  | failure (message : String)
  | sent (result : Except SessionFault Completion)
  /-- A question that is asked. -/
  | query (query : Query)
  /-- An operation that was done before an answer. -/
  | meanwhile (op : Op) (answer : op.Answer)

structure State where
  session : Session.State
  live : Live
  /-- How many hold on to a subscription. -/
  holders : Nat
  markers : List (String × ReviewableId)
  replies : List Reply
  listing : List Reviewable
  listener : Mailbox StoreChange
  log : List Entry

namespace State

/-- The number of changes that wait for being logged. -/
def listenerCapacity : Nat := 64

/-- A rehearsal before anything was done. -/
def start (store : Store) (replies : List Reply) (listing : List Reviewable) (capacity : Nat) :
    State where
  session := { (default : Session.State) with store }
  live := .create capacity
  holders := 0
  markers := []
  replies := replies
  listing := listing
  listener := .create listenerCapacity
  log := []

def logDelivery : Mailbox.Delivery StoreChange → Entry
  | .message change => .change change
  | .missed count => .missed count

/-- Logs the changes that wait. -/
def flush (w : State) : State :=
  { w with
    log := w.log ++ w.listener.deliveries.map logDelivery
    listener := w.listener.emptied }

def record (w : State) (entry : Entry) : State :=
  let w := w.flush
  { w with log := w.log ++ [entry] }

def takeNote (script : Script) (w : State) : Note → State
  | .change change => { w with listener := w.listener.post change }
  | .success message => if script.unattended then w else w.record (.success message)
  | .failure message => if script.unattended then w else w.record (.failure message)
  | .sent result => w.record (.sent result)

/-- Moves the journal of the session into the log. -/
def collect (script : Script) (w : State) : State :=
  let collected := w.session.journal.foldl (takeNote script) w
  { collected with session := { collected.session with journal := [] } }

/-- Takes the log out. -/
def takeLog (script : Script) (w : State) : List Entry × State :=
  let w := (w.collect script).flush
  (w.log, { w with log := [] })

def withStore (w : State) (store : Store) : State :=
  { w with session := { w.session with store } }

/-- Takes the marker of a name off. -/
def dropMarker (w : State) (name : String) : State :=
  match w.markers.lookup name with
  | some id =>
    let w := w.withStore (w.session.store.endUpdate id)
    { w with markers := w.markers.eraseP (·.1 == name) }
  | none => w

/-- Takes the first reply of a kind out. -/
def takeReply {α : Type} (w : State) (select : Reply → Option α) : Option α × State :=
  let found := w.replies.findSome? select
  (found, { w with replies := w.replies.eraseP fun reply ↦ (select reply).isSome })

end State

/-- What the backend answers when the script says nothing. -/
def usualReply (script : Script) (w : State) : (request : Request) → request.Reply
  | .perform id .. => .ok ⟨true, none, none, none, some [id], none, none⟩
  | .claim _ automatic => .ok ⟨script.session.actor, automatic⟩
  | .release .. => .ok ()
  | .fetch _ => .error (.rejected 404 "not_found" "not found")
  | .list => .ok w.listing
  | .update .. => .error (.rejected 404 "not_found" "not found")

/-- The scripted reply to a request. -/
def scriptedReply : (request : Request) → Reply → Option (List Op × request.Reply)
  | .perform .., .perform ops answer => some (ops, answer)
  | .claim .., .claim ops answer => some (ops, answer)
  | .release .., .release ops answer => some (ops, answer)
  | .fetch _, .fetch ops answer => some (ops, answer)
  | .list, .list ops answer => some (ops, answer)
  | .update .., .update ops answer => some (ops, answer)
  | _, _ => none

def scriptedAnswer : Reply → Option (List Op × Bool)
  | .confirm ops answer => some (ops, answer)
  | _ => none

/-- Sends the action once for each of a list of fields, as long as nothing fails. -/
def sendAll {α : Type} (ignoresErrors : Bool) (failed : SessionFault → α) (result : Bool → α) :
    Bool → List Fields → Plan α
  | good, [] => .finish (result good)
  | good, more :: rest => .send more fun
    | .ok _ => sendAll ignoresErrors failed result good rest
    | .error fault =>
      if ignoresErrors then sendAll ignoresErrors failed result false rest
      else .finish (failed fault)

/-- A penalty tool sends everything, and has succeeded if it says so and nothing failed. -/
def PenaltyTool.plan (tool : PenaltyTool) : Plan Bool :=
  sendAll true (fun _ ↦ false) (fun good ↦ tool.success && good) true tool.sends

def ClientWorkflow.plan (workflow : ClientWorkflow) : Plan (Except SessionFault Unit) :=
  sendAll workflow.ignoresErrors .error
    (fun _ ↦ match workflow.fault with
      | some fault => .error fault
      | none => .ok ()) true workflow.sends

/-- Answers a question, doing first what the script wants done with `nested`. -/
def answer (script : Script) (nested : List Op → State → State) (w : State) :
    (query : Query) → query.Answer × State
  | .call request =>
    let w := w.record (.query (.call request))
    match script.backend with
    | some serve => (serve request, w)
    | none => match w.takeReply (scriptedReply request) with
      | (some (ops, reply), w) => (reply, nested ops w)
      | (none, w) => (usualReply script w request, w)
  | .confirm message =>
    if script.unattended then (true, w)
    else match (w.record (.query (.confirm message))).takeReply scriptedAnswer with
      | (some (ops, reply), w) => (reply, nested ops w)
      | (none, w) => (true, w)
  | .collect name r action => match script.forms.lookup name with
    | some form =>
      if form.known then (form.values, w)
      else (form.values, nested form.meanwhile (w.record (.query (.collect name r action))))
    | none => (none, w)
  | .edit r => match script.editor with
    | some editor =>
      (editor.editable, nested editor.meanwhile (w.record (.query (.edit r))))
    | none => (false, w)
  | .penalize kind user r => match script.penaltyTool with
    | some tool =>
      (tool.plan, nested tool.meanwhile (w.record (.query (.penalize kind user r))))
    | none => (.finish false, w)
  | .run name r action => match script.workflows.lookup name with
    | some workflow =>
      (workflow.plan, nested workflow.meanwhile (w.record (.query (.run name r action))))
    | none => (.finish (.ok ()), w)

/-! ## Running -/

/-- Runs a task to its end. -/
def runTask {α : Type} (script : Script) (nested : List Op → State → State) :
    Task α → State → α × State
  | .done a, w => (a, w)
  | .sync change next, w =>
    runTask script nested (next w.session) { w with session := change w.session }
  | .mark id next, w => match w.session.store.beginUpdate id with
    | .ok store => runTask script nested (next none) (w.withStore store)
    | .error fault => runTask script nested (next (some fault)) w
  | .unmark id next, w =>
    runTask script nested next (w.withStore (w.session.store.endUpdate id))
  | .ask query next, w =>
    let (reply, w) := answer script nested (w.collect script) query
    runTask script nested (next reply) w

def policyOf (script : Script) (r : Reviewable) : Policy where
  mode := script.session.config.mode
  actor := script.session.actor
  enabled := script.session.claimEnabled r
  canPerform := script.session.canPerform r
  status := script.session.claimStatus r

/-- The events of messages, unless one cannot be read. Messages on unknown channels are none. -/
def readEvents (messages : List (String × String)) : Except DecodeFault (List Event) := do
  let events ← messages.mapM fun (channel, payload) ↦ Event.decode channel payload
  pure (events.filterMap id)

/-- Does one thing with the session. -/
def step (script : Script) (nested : List Op → State → State) (w : State) :
    (op : Op) → op.Answer × State
  | .insert r => run (Task.onStore (·.insert r)) w
  | .replaceAll rs => run (Task.onStore (·.replaceAll rs)) w
  | .refresh r => run (Task.onStore (·.refresh r)) w
  | .remove ids => run (Task.onStore (·.remove ids)) w
  | .setClaim id claim => run (Task.onStore (·.setClaim id claim)) w
  | .setTopicClaim topic claim => run (Task.onStore (·.setTopicClaim topic claim)) w
  | .applyCounts reviewables unseen => run (Task.onStore (·.applyCounts reviewables unseen)) w
  | .get id => (w.session.store.get? id, w)
  | .inspect _ => (w.session.store, w)
  | .snapshot => (w.session.store.snapshot, w)
  | .beginUpdate id name => match w.session.store.beginUpdate id with
    | .ok store =>
      let w := (w.withStore store).dropMarker name
      (.ok id, { w with markers := (name, id) :: w.markers })
    | .error fault => (.error fault, w)
  | .endUpdate name => (w.markers.any (·.1 == name), w.dropMarker name)
  | .ensureClaimed id => run (s.ensureClaimed id) w
  | .claim id => run (s.claim id) w
  | .unclaim id => run (s.unclaim id) w
  | .release r => run (s.release r) w
  | .releaseCopy id => match w.session.store.get? id with
    | some r =>
      let (released, w) := run (s.release r) w
      (some released, w)
    | none => (none, w)
  | .policy r => (policyOf script r, w)
  | .policyOfCopy id => ((w.session.store.get? id).map (policyOf script), w)
  | .perform id action extra => run (s.perform id action extra) w
  | .performNamed id name extra => run (s.performNamed id name extra) w
  | .saveEdit id updates => run (s.saveEdit id updates) w
  | .loadQueue => run s.loadQueue w
  | .setListing rs => ((), { w with listing := rs })
  | .addReply reply => ((), { w with replies := w.replies ++ [reply] })
  | .subscribe =>
    let (live, fresh) := w.live.subscribe
    (fresh, { w with live })
  | .unsubscribe =>
    let (live, ended) := w.live.unsubscribe
    (ended, { w with live })
  | .isSubscribed => (w.live.isSubscribed, w)
  | .hold =>
    let live := w.live.hold
    (live.isSubscribed, { w with live, holders := w.holders + 1 })
  | .letGo =>
    if w.holders = 0 then ((false, w.live.isSubscribed), w)
    else
      let live := w.live.letGo
      ((true, live.isSubscribed), { w with live, holders := w.holders - 1 })
  | .apply channel payload => match Event.decode channel payload with
    | .error fault => (.error fault, w)
    | .ok none => (.ok none, w)
    | .ok (some event) =>
      let (done, w) := run (s.applyEvent event) w
      (.ok (some done), w)
  | .publish messages => match readEvents messages with
    | .error fault => (.error fault, w)
    | .ok events =>
      let (arrived, live) := (events.foldl Live.publish w.live).take
      let (done, w) := run (s.receiveAll arrived) { w with live }
      (.ok (some done), w)
  | .unreadable _ => ((), w)
where
  s : Session := script.session
  run {α : Type} (task : Task α) (w : State) : α × State := runTask script nested task w

/-- Does things before an answer is given, and logs each. They may do the same to each other, as
deep as a bound allows. -/
def meanwhile (script : Script) : Nat → List Op → State → State
  | 0, _, w => w
  | depth + 1, ops, w => ops.foldl (fun w op ↦
    let (result, w) := step script (meanwhile script depth) w op
    (w.collect script).record (.meanwhile op result)) w

/-- How deep things may be done within each other. -/
def depthBound : Nat := 1000

/-- Does one thing with the session and takes the log of it. -/
def perform (script : Script) (w : State) (op : Op) : op.Answer × List Entry × State :=
  let (result, w) := step script (meanwhile script depthBound) w op
  (result, w.takeLog script)

end Moderation.Rehearsal
