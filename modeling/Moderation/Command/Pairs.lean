import Moderation.Document.Text
import Moderation.Text.Blank
import Moderation.Text.Split

/-!
# Fields as key=value pairs

A pair ends its key at the first equals sign, and blanks around the key do not count. A value
that is JSON keeps its type, and any other is a text.
-/

namespace Moderation.Command.Pairs

inductive Fault where
  | noEquals (pair : String)
  | emptyKey (pair : String)
deriving DecidableEq, Repr

def Fault.message : Fault → String
  | .noEquals pair => "invalid field '" ++ pair ++ "': expected key=value"
  | .emptyKey pair => "invalid field '" ++ pair ++ "': empty key"

/-- What the text after the equals sign stands for. -/
def value (text : String) : Json :=
  match Json.decode Decoder.json text with
  | .ok value => value
  | .error _ => .string text

def read (pair : String) : Except Fault (String × Json) :=
  match Text.cut '=' pair.toList with
  | (_, none) => .error (.noEquals pair)
  | (before, some after) =>
    let key := Text.trim before
    if key.isEmpty then .error (.emptyKey pair)
    else .ok (String.ofList key, value (String.ofList after))

/-- The fields of a list of pairs, the last of a key counting. The first bad pair is the fault. -/
def readAll (pairs : List String) : Except Fault Fields :=
  (pairs.mapM read).map Fields.ofMembers

end Moderation.Command.Pairs
