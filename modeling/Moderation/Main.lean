import Moderation.Command.Run
import Std.Time.DateTime.Timestamp

/-!
# The command line

Runs the program in the place where it was called: with its files, its clock and its terminal.
There is no network in it, so a request to a service finds nobody and a service is not started.
-/

namespace Moderation.Command

/-- Why a file could not be read. -/
def ReadFault.ofError : IO.Error → ReadFault
  | .noFileOrDirectory .. => .missing
  | .permissionDenied .. => .other "Permission denied (os error 13)"
  | .inappropriateType _ code _ => if code = 20 then .notDirectory else .directory
  | .invalidArgument _ 36 _ => .nameTooLong
  | .userError _ => .other "stream did not contain valid UTF-8"
  | fault => .other (toString fault)

def Need.perform : (need : Need) → IO need.Answer
  | .print text => IO.print text
  | .warn text => IO.eprint text
  | .readLine => do (← IO.getStdin).getLine
  | .readFile path => do
    try
      let text ← IO.FS.readFile path
      pure (.ok text)
    catch fault => pure (.error (.ofError fault))
  | .clock => do
    let nanoseconds := (← Std.Time.Timestamp.now).toNanosecondsSinceUnixEpoch
    pure (.ofNanoseconds nanoseconds.val)
  | .exchange _ request => pure (Http.Client.Link.unreachable request)

def Program.perform {α : Type} : Program α → IO α
  | .done a => pure a
  | .ask need next => do (next (← need.perform)).perform

/-- The variables that options fall back on. -/
def environment : IO Environment := do
  let mut found := []
  for name in Opt.everywhere.filterMap Opt.standIn? do
    if let some value ← IO.getEnv name then
      found := (name, value) :: found
  pure found

def Ending.perform : Ending → IO UInt32
  | .exit code => pure code
  | .serve port _ => do
    (Program.complain ("cannot listen on port " ++ toString port)).perform
    pure 1
  | .follow _ => do
    Watcher.close.perform
    pure 0

end Moderation.Command

def main (arguments : List String) : IO UInt32 := do
  let program := Moderation.Command.program (← Moderation.Command.environment) arguments
  (← program.perform).perform
