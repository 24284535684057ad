import Moderation.Payload
import Moderation.Session.Claims

/-!
# Performing actions

An action goes through its confirmation or its form, the claim of its topic and its workflow
before it is sent, and what the backend answers goes into the store. While all this lasts the
reviewable is marked, so that nothing else is sent for it.
-/

namespace Moderation

/-- Why an action was not sent. -/
inductive Abort where
  /-- The topic is somebody else's, or claiming it failed. -/
  | claimRefused
  | confirmationDismissed
  | formDismissed
  /-- The workflow ended without sending the action. -/
  | workflowIncomplete
deriving DecidableEq, Repr

inductive Outcome where
  | completed (completion : Completion)
  | aborted (reason : Abort)

namespace Session

/-- Tells the moderator of a failure, and takes over the reviewable that the backend sent along. -/
def reportFailure (fault : BackendFault) : Task Unit := do
  match fault with
  | .versionConflict _ (some current) =>
    let _ ← Task.onStore (·.refresh current)
  | _ => pure ()
  Task.failure fault.message

/-- Gets a reviewable that the result of an action said nothing about. -/
def reload (id : ReviewableId) : Task (Option Reviewable) := do
  match ← Task.call (.fetch id) with
  | .ok r =>
    let _ ← Task.onStore (·.refresh r)
    pure (some r)
  | .error fault =>
    Task.failure fault.message
    pure none

/-- Takes the result of an action over into the store. -/
def applyResult (id : ReviewableId) (action : Action) (result : PerformResult) :
    Task Completion := do
  let _ ← Task.onStore (·.applyCounts result.count result.unseen)
  match action.completion with
  | some message => Task.success message
  | none => pure ()
  match result.reviewable with
  | some r =>
    let _ ← Task.onStore (·.refresh r)
  | none => pure ()
  let removed ← match result.removed with
    | some ids => Task.onStore (·.remove ids)
    | none => pure []
  let refreshed ← match result.removed, result.reviewable with
    | none, none => reload id
    | _, copy => pure copy
  pure { result, removed, refreshed }

/-- Sends an action with the version and the payload of the session's copy. -/
def send (s : Session) (id : ReviewableId) (action : Action) (extra : Fields) :
    Task (Except SessionFault Completion) :=
  Task.withCopy id fun r ↦ do
    let data := Payload.build r extra (s.config.parametersOf r.kind)
    match ← Task.call (.perform id action.name r.version data) with
    | .ok result => pure (.ok (← applyResult id action result))
    | .error fault =>
      reportFailure fault
      pure (.error (.backend fault))

/-- An action that a workflow may send. -/
structure Pending where
  /-- The number of its dispatch. -/
  number : Nat
  id : ReviewableId
  action : Action
  extra : Fields

namespace Pending

/-- A pending action with a dispatch of its own. -/
def create (id : ReviewableId) (action : Action) (extra : Fields) : Task Pending :=
  .sync (fun s ↦ { s with dispatches := s.dispatches ++ [default] })
    fun s ↦ .done ⟨s.dispatches.length, id, action, extra⟩

/-- Takes the right to send; the answer is whether somebody had it already. -/
def take (p : Pending) : Task Bool :=
  .sync
    (fun s ↦ { s with
      dispatches := s.dispatches.modify p.number fun d ↦ { d with sent := true } })
    fun s ↦ .done (s.dispatches[p.number]?.any (·.sent))

/-- Gives the right to send back, after a failure. -/
def giveBack (p : Pending) : Task Unit :=
  Task.modify fun s ↦ { s with
    dispatches := s.dispatches.modify p.number fun d ↦ { d with sent := false } }

def complete (p : Pending) (completion : Completion) : Task Unit :=
  Task.modify fun s ↦ { s with
    dispatches := s.dispatches.modify p.number fun d ↦ { d with completion := some completion } }

def completion (p : Pending) : Task (Option Completion) :=
  .sync (fun s ↦ s) fun s ↦ .done (s.dispatches[p.number]?.bind (·.completion))

end Pending

/-- Sends a pending action, with more fields on top, unless it was sent before or is being sent. A
send that failed may be repeated. -/
def dispatch (s : Session) (p : Pending) (more : Fields) :
    Task (Except SessionFault Completion) := do
  if ← p.take then pure (.error (.alreadyDispatched p.id))
  else
    match ← s.send p.id p.action (p.extra.overlay more) with
    | .ok completion =>
      p.complete completion
      pure (.ok completion)
    | .error fault =>
      p.giveBack
      pure (.error fault)

/-- Carries a plan out, and tells what becomes of everything that it sends. -/
def carryOut {α : Type} (s : Session) (p : Pending) : Plan α → Task α
  | .finish result => pure result
  | .send more next => do
    let result ← s.dispatch p more
    Task.note (.sent result)
    s.carryOut p (next result)

/-- The penalty tool on the author, as far as there are both; whether there is a penalty now. -/
def penalize (s : Session) (kind : PenaltyKind) (r : Reviewable) (p : Pending) : Task Bool :=
  match r.author with
  | some user => do s.carryOut p (← Task.query (.penalize kind user r))
  | none => pure false

/-- The workflow of a penalty. When it fails, the automatic claim that was taken for it is given
back. -/
def runPenalty (s : Session) (kind : PenaltyKind) (r : Reviewable) (p : Pending) : Task Unit := do
  if s.hasPenaltyTool then
    if !(← s.penalize kind r p) then
      match ← s.release r with
      | .ok _ => pure ()
      | .error fault => Task.failure fault.message

/-- The workflow that lets the moderator edit the post first. -/
def runEdit (s : Session) (r : Reviewable) (p : Pending) : Task (Except SessionFault Unit) := do
  if ← Task.query (.edit r) then pure ((← s.dispatch p ∅).map fun _ ↦ ())
  else pure (.ok ())

/-- Runs a workflow on the reviewable as it was when the workflow started. -/
def runWorkflow (s : Session) (workflow : Workflow) (r : Reviewable) (p : Pending) :
    Task (Except SessionFault Unit) :=
  match workflow with
  | .penalty kind => do
    s.runPenalty kind r p
    pure (.ok ())
  | .edit => s.runEdit r p
  | .custom name => do s.carryOut p (← Task.query (.run name r p.action))

/-- Hands the action to a workflow; what counts is whether the workflow sent it. -/
def performByWorkflow (s : Session) (workflow : Workflow) (id : ReviewableId) (action : Action)
    (extra : Fields) : Task (Except SessionFault Outcome) :=
  Task.withCopy id fun r ↦ do
    let p ← Pending.create id action extra
    match ← s.runWorkflow workflow r p with
    | .error fault => pure (.error fault)
    | .ok () => match ← p.completion with
      | some completion => pure (.ok (.completed completion))
      | none => pure (.ok (.aborted .workflowIncomplete))

/-! ## Performing -/

/-- The workflow that an action names, if it names one. -/
def workflowOf (workflows : String → Option Workflow) (action : Action) :
    Except SessionFault (Option Workflow) :=
  match action.workflow with
  | none => .ok none
  | some name => match workflows name with
    | some workflow => .ok (some workflow)
    | none => .error (.unregisteredWorkflow name)

/-- The part after the confirmation or the form. The workflow is looked up once more. -/
def performConfirmed (s : Session) (workflows : String → Option Workflow) (id : ReviewableId)
    (action : Action) (extra : Fields) : Task (Except SessionFault Outcome) := do
  if ← s.ensureClaimed id then
    match workflowOf workflows action with
    | .error fault => pure (.error fault)
    | .ok none => pure ((← s.send id action extra).map .completed)
    | .ok (some workflow) => s.performByWorkflow workflow id action extra
  else pure (.ok (.aborted .claimRefused))

/-- Asks for the confirmation first. A moderator who dismisses it keeps the claim. -/
def performAsking (s : Session) (message : String) (workflows : String → Option Workflow)
    (id : ReviewableId) (action : Action) (extra : Fields) :
    Task (Except SessionFault Outcome) := do
  if ← s.ensureClaimed id then
    if ← Task.query (.confirm message) then s.performConfirmed workflows id action extra
    else pure (.ok (.aborted .confirmationDismissed))
  else pure (.ok (.aborted .claimRefused))

/-- Opens a form first. What is entered there goes over what was given. -/
def performFilling (s : Session) (form : String) (workflows : String → Option Workflow)
    (id : ReviewableId) (action : Action) (extra : Fields) :
    Task (Except SessionFault Outcome) := do
  if s.forms.contains form then
    if ← s.ensureClaimed id then
      Task.withCopy id fun r ↦ do
        match ← Task.query (.collect form r action) with
        | some entered => s.performConfirmed workflows id action (extra.overlay entered)
        | none => pure (.ok (.aborted .formDismissed))
    else pure (.ok (.aborted .claimRefused))
  else pure (.error (.missingForm action.name form))

/-- Everything that happens while the reviewable is marked. A confirmation stands in for a form. -/
def performMarked (s : Session) (workflows : String → Option Workflow) (id : ReviewableId)
    (action : Action) (extra : Fields) : Task (Except SessionFault Outcome) :=
  match workflowOf workflows action with
  | .error fault => pure (.error fault)
  | .ok _ => match action.confirmation, s.formOf? action with
    | some message, _ => s.performAsking message workflows id action extra
    | none, some form => s.performFilling form workflows id action extra
    | none, none => s.performConfirmed workflows id action extra

/-- Performs an action on a reviewable, with the client workflows that are registered. -/
def performWith (s : Session) (workflows : String → Option Workflow) (id : ReviewableId)
    (action : Action) (extra : Fields) : Task (Except SessionFault Outcome) :=
  Task.withUpdate id (s.performMarked workflows id action extra)

/-- Performs an action on a reviewable. -/
def perform (s : Session) (id : ReviewableId) (action : Action) (extra : Fields) :
    Task (Except SessionFault Outcome) :=
  s.performWith s.workflow? id action extra

/-- Performs the reviewable's own action of a name. -/
def performNamed (s : Session) (id : ReviewableId) (name : String) (extra : Fields) :
    Task (Except SessionFault Outcome) :=
  Task.withCopy id fun r ↦ match r.action? name with
    | some action => s.perform id action extra
    | none => pure (.error (.unknownAction id name))

/-- Saves an edit, without the objects in it that say nothing. -/
def saveEdit (_ : Session) (id : ReviewableId) (updates : Fields) :
    Task (Except SessionFault Reviewable) :=
  Task.withUpdate id <| Task.withCopy id fun r ↦ do
    match ← Task.call (.update id r.version updates.pruned) with
    | .ok edited =>
      let _ ← Task.onStore (·.refresh edited)
      pure (.ok edited)
    | .error fault =>
      reportFailure fault
      pure (.error (.backend fault))

/-- Replaces the store by what the backend has; the answer is how much that is. -/
def loadQueue (_ : Session) : Task (Except SessionFault Nat) := do
  match ← Task.call .list with
  | .ok items =>
    Task.onStore (·.replaceAll items)
    pure (.ok items.length)
  | .error fault => pure (.error (.backend fault))

end Session

end Moderation
