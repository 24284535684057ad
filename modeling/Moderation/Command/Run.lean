import Moderation.Command.Arguments
import Moderation.Command.Desk
import Moderation.Command.Failure
import Moderation.Wire.Seed
import Moderation.Yaml.Printer

/-!
# Running commands

Each command checks what it needs in a fixed order before it does anything, and ends the program
or hands it over to what has no end of its own: a service, or somebody who follows the event
stream.
-/

namespace Moderation.Command

/-- What comes after a command. -/
inductive Ending where
  | exit (code : UInt32)
  | serve (port : UInt16) (queue : Queue)
  | follow (watcher : Watcher)

/-- A part of a command, which may fail. -/
abbrev Attempt := ExceptT Failure Program

namespace Attempt

variable {α ε : Type}

/-- Goes on with what a part gives, unless that is a fault. -/
def check (failure : ε → Failure) (result : Program (Except ε α)) : Attempt α := do
  match ← result with
  | .ok a => pure a
  | .error fault => throw (failure fault)

def ofExcept (failure : ε → Failure) (result : Except ε α) : Attempt α :=
  check failure (pure result)

def ofOption (failure : Failure) : Option α → Attempt α
  | some a => pure a
  | none => throw failure

def printLine (line : String) : Attempt Unit := Program.printLine line

def printLines (lines : List String) : Attempt Unit := Program.printLines lines

/-- Prints a value over several lines. -/
def printJson (value : Json) : Attempt Unit := printLine value.indentedText

end Attempt

open Attempt

def Settings.actor (s : Settings) : Attempt User := do
  let id ← ofOption .noModeratorId s.userId
  let username ← ofOption .noModeratorName s.username
  pure ⟨id, username⟩

def Settings.connection (s : Settings) : Attempt Connection := do
  pure (.create s.server (← s.actor))

/-- The configuration in a file, or the one that there is without a file. -/
def Settings.configuration (s : Settings) (failure : String → FileFault → Failure) :
    Attempt Config :=
  match s.config with
  | none => pure default
  | some path => do
    let text ← check (failure path ∘ .unreadable) (Program.need (.readFile path))
    ofExcept (failure path ∘ .load) (Config.ofYaml text)

/-- A desk with forms, all of which the configuration may name. -/
def Settings.desk (s : Settings) (connection : Connection) (config : Config)
    (forms : List (String × Option Fields)) : Attempt Desk := do
  let session : Session := {
    actor := connection.client.actor
    config
    forms := forms.map (·.1)
    workflows := []
    hasPenaltyTool := false
    hasEditor := false }
  pure {
    connection
    session := ← ofExcept .session session.checked
    forms
    quiet := s.json
    assumeYes := s.assumeYes }

/-- Does something at a desk. -/
def Desk.attempt {α : Type} (d : Desk) (task : Task (Except SessionFault α))
    (state : Session.State) : Attempt (α × Session.State) := do
  let (result, state) ← d.run task state
  pure (← ofExcept .session result, state)

def list (s : Settings) : Attempt Unit := do
  let connection ← s.connection
  let items ← check .queueFailed (connection.send .list)
  if s.json then printJson (.array (items.map Reviewable.toJson))
  else if items.isEmpty then printLine "Review queue is empty."
  else
    let now ← Program.clock
    printLines (Table.lines listHeadings (items.map (listRow now)))

def detail (s : Settings) (id : ReviewableId) : Attempt Unit := do
  let connection ← s.connection
  let r ← check (.reviewableFailed id) (connection.send (.fetch id))
  if s.json then printJson r.toJson else printLines (detailLines r)

/-- What each form is filled in with: everything that was given, the form for reasons only when a
reason was. -/
def formsFor (config : Config) (answers : Fields) (reason : Option String) :
    List (String × Option Fields) :=
  let own := [Config.rejectReasonForm, Config.reviseAndRejectPost]
  [(Config.rejectReasonForm, reason.map fun _ ↦ answers),
    (Config.reviseAndRejectPost, some answers)] ++
  (config.forms.toList.filter fun (_, form) ↦ !own.contains form).map fun (_, form) ↦
    (form, some answers)

def perform (s : Settings) (id : ReviewableId) (action : String) (reason : Option String)
    (pairs : List String) : Attempt Unit := do
  let fields ← ofExcept .badPair (Pairs.readAll pairs)
  let answers := match reason with
    | some reason => fields.insert "reject_reason" (.string reason)
    | none => fields
  let connection ← s.connection
  let config ← s.configuration .configFailed
  let desk ← s.desk connection config (formsFor config answers reason)
  let (_, state) ← desk.attempt desk.session.loadQueue default
  if !state.store.contains id then throw (.notPending id)
  let (outcome, _) ← desk.attempt (desk.session.performNamed id action fields) state
  match outcome with
  | .completed completion =>
    if s.json then printJson completion.result.toJson
    else
      printLine ("Performed " ++ action ++ " on reviewable " ++ toString id ++ ".")
      match completion.result.count with
      | some count => printLine (toString count ++ " reviewable(s) remaining.")
      | none => pure ()
  | .aborted reason => throw (.notPerformed action reason)

/-- A desk without forms, with the queue loaded; and how much that is. -/
def openDesk (s : Settings) : Attempt (Desk × Nat × Session.State) := do
  let connection ← s.connection
  let config ← s.configuration .configFailed
  let desk ← s.desk connection config []
  let (count, state) ← desk.attempt desk.session.loadQueue default
  pure (desk, count, state)

def claimJson (id : ReviewableId) (claim : Option Claim) : Json :=
  Json.normalize (.object [("id", id.toJson), ("claimed_by", .ofOption Claim.toJson claim)])

def claim (s : Settings) (id : ReviewableId) : Attempt Unit := do
  let (desk, _, state) ← openDesk s
  let (claim, _) ← desk.attempt (desk.session.claim id) state
  if s.json then printJson (claimJson id (some claim))
  else
    printLine ("Claimed the topic of reviewable " ++ toString id ++ " as " ++
      claim.user.username ++ ".")

def unclaim (s : Settings) (id : ReviewableId) : Attempt Unit := do
  let (desk, _, state) ← openDesk s
  let _ ← desk.attempt (desk.session.unclaim id) state
  if s.json then printJson (claimJson id none)
  else printLine ("Released the topic of reviewable " ++ toString id ++ ".")

def watch (s : Settings) : Attempt Ending := do
  let (desk, count, state) ← openDesk s
  printLine ("Watching " ++ toString count ++ " pending reviewable(s) on " ++ s.server)
  check .streamFailed desk.connection.connect
  pure (.follow (.start desk state))

def serve (port : UInt16) (seed : Option String) (mode : Option ClaimMode) : Attempt Ending := do
  let queue ← match seed with
    | none => pure (Queue.ofSeed .optional [])
    | some path => do
      let text ← check (.seedFailed path ∘ .unreadable) (Program.need (.readFile path))
      let seed ← ofOption (.seedFailed path (.load .malformed))
        (Seed.ofYaml? (← Program.clock) text)
      pure seed.queue
  pure (.serve port (match mode with
    | some mode => queue.setMode mode
    | none => queue))

def checkConfig (s : Settings) : Attempt Unit := do
  let config ← s.configuration .configInvalid
  let count := config.forms.size
  if s.json then
    printJson (.object [
      ("action_workflows", .ofNat count),
      ("claim_mode", config.mode.toJson),
      ("valid", .bool true)])
  else
    printLine ("Config is valid: claim mode " ++ config.mode.name ++ ", " ++ toString count ++
      " action workflow mapping(s).")

def showConfig (s : Settings) : Attempt Unit := do
  let config ← s.configuration .configInvalid
  if s.json then printJson config.toFile.toJson
  else
    printLine ("claim mode: " ++ config.mode.name)
    printLine ""
    printLines (Table.lines ["ACTION", "WORKFLOW"]
      (config.forms.toList.map fun (action, form) ↦ [action, form]))
    if !config.parameters.isEmpty then
      printLine ""
      Program.print (Yaml.Printer.printLists config.parameters.toList)

/-! ## The whole command line -/

def Invocation.run (i : Invocation) : Attempt Ending :=
  let ends (attempt : Attempt Unit) : Attempt Ending := do
    attempt
    pure (.exit 0)
  match i.job with
  | .serve port seed mode => serve port seed mode
  | .list => ends (list i.settings)
  | .detail id => ends (detail i.settings id)
  | .perform id action reason pairs => ends (perform i.settings id action reason pairs)
  | .claim id => ends (claim i.settings id)
  | .unclaim id => ends (unclaim i.settings id)
  | .watch => watch i.settings
  | .checkConfig => ends (checkConfig i.settings)
  | .showConfig => ends (showConfig i.settings)

/-- What is printed instead of a command, and the exit code. -/
def Stop.answer : Stop → Program Ending
  | .version name => do
    Program.printLine (name ++ " " ++ programVersion)
    pure (.exit 0)
  | .help name => do
    Program.printLine ("Usage: " ++ name ++ " [OPTIONS] [COMMAND]")
    pure (.exit 0)
  | .misuse message => do
    Program.complain message
    pure (.exit 2)

/-- The program for an environment and arguments. -/
def program (env : Environment) (arguments : List String) : Program Ending :=
  match Invocation.parse env arguments with
  | .error stop => stop.answer
  | .ok invocation => do
    match ← invocation.run.run with
    | .ok ending => pure ending
    | .error failure =>
      Program.complain failure.message
      pure (.exit 1)

end Moderation.Command
