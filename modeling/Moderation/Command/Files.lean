import Moderation.Text.Split

/-!
# Files

The files of a place, each under its path from the working directory, and how a path leads to one
of them. Every step but the last has to lead to a directory. Of what lies outside the working
directory only that is known which any system has: directories around it and below the root, and
the device without content.
-/

namespace Moderation.Command

/-- Why a file cannot be read. -/
inductive ReadFault where
  | missing
  | notDirectory
  | directory
  | nameTooLong
  | other (detail : String)
deriving DecidableEq, Repr

def ReadFault.message : ReadFault → String
  | missing => "No such file or directory (os error 2)"
  | notDirectory => "Not a directory (os error 20)"
  | directory => "Is a directory (os error 21)"
  | nameTooLong => "File name too long (os error 36)"
  | other detail => detail

/-- The texts of files by their paths. -/
abbrev Files := List (String × String)

namespace Files

/-- The longest name of a file and the longest path, in bytes. -/
def nameLimit : Nat := 255

def pathLimit : Nat := 4095

def steps (path : String) : List String := (Text.splitOn '/' path.toList).map String.ofList

/-- A step that leads nowhere else. -/
def isIdle (step : String) : Bool := step == "" || step == "."

/-- Where a path has led. -/
inductive Location where
  /-- Some steps down from the working directory. -/
  | inside (steps : List String)
  /-- Some steps down from the root. -/
  | absolute (steps : List String)
  /-- A directory around the working directory. -/
  | around

namespace Location

def parent : Location → Location
  | inside [] => around
  | inside steps => inside steps.dropLast
  | absolute steps => absolute steps.dropLast
  | around => around

/-- One step down, if anything is known of what is there. -/
def child? : Location → String → Option Location
  | inside steps, step => some (inside (steps ++ [step]))
  | absolute steps, step => some (absolute (steps ++ [step]))
  | around, _ => none

end Location

/-- The directories below the root. -/
def standardDirectories : List String :=
  ["bin", "dev", "etc", "home", "lib", "opt", "proc", "root", "run", "sbin", "srv", "sys", "tmp",
    "usr", "var"]

variable (files : Files)

/-- The text of the file at a location. -/
def text? : Location → Option String
  | .inside down => (files.find? fun (path, _) ↦ (steps path).filter (!isIdle ·) == down).map (·.2)
  | .absolute down => if down = ["dev", "null"] then some "" else none
  | .around => none

/-- Whether a location is a directory: the working directory, every one on the way to a file, and
those that any system has. -/
def isDirectory : Location → Bool
  | .inside down => down.isEmpty || files.any fun (path, _) ↦
    let steps := (steps path).filter (!isIdle ·)
    down.isPrefixOf steps && down.length < steps.length
  | .absolute [] => true
  | .absolute [name] => standardDirectories.contains name
  | .absolute _ => false
  | .around => true

/-- Takes one step from a location. -/
def enter (here : Location) (step : String) : Except ReadFault Location :=
  if !files.isDirectory here then .error .notDirectory
  else if isIdle step then .ok here
  else if step = ".." then .ok here.parent
  else if nameLimit < step.utf8ByteSize then .error .nameTooLong
  else match (here.child? step).filter fun there ↦
      files.isDirectory there || (files.text? there).isSome with
    | some there => .ok there
    | none => .error .missing

/-- The text of the file that a path leads to. -/
def read (path : String) : Except ReadFault String := do
  if path.isEmpty then .error .missing
  else if pathLimit < path.utf8ByteSize then .error .nameTooLong
  else
    let start := if path.toList.head? == some '/' then .absolute [] else .inside []
    let there ← (steps path).foldlM files.enter start
    match files.text? there with
    | some text => .ok text
    | none => .error .directory

end Files

end Moderation.Command
