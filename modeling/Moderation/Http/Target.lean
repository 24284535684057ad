import Moderation.Text.Hex
import Moderation.Text.Split
import Moderation.Text.Utf8

/-!
# Targets of requests

A target is a path of segments and, after a question mark, a query of named values. Bytes in both
may be written with a percent sign and two digits. The host may be named before the path.
-/

namespace Moderation.Http

structure Target where
  /-- The segments after the first slash, as written. -/
  segments : List (List Char)
  query : List Char

namespace Target

/-- The characters of the scheme before a colon. -/
def isScheme (c : Char) : Bool := c.isAlphanum || c == '+' || c == '-' || c == '.'

/-- A target without the scheme and the host that it may name in full. -/
def withoutHost (cs : List Char) : List Char :=
  match Text.cut ':' cs with
  | (scheme, some ('/' :: '/' :: rest)) =>
    if scheme.all isScheme then
      match rest.dropWhile fun c ↦ !(c == '/' || c == '?' || c == '#') with
      | '/' :: path => '/' :: path
      | path => '/' :: path
    else cs
  | _ => cs

/-- The parts of a target, whose fragment does not count. A path begins with a slash, and that of a
host alone is a slash. -/
def ofChars (cs : List Char) : Target :=
  let (path, query) := Text.cut '?' (Text.cut '#' (withoutHost cs)).1
  let segments := match path with
    | '/' :: rest => Text.splitOn '/' rest
    | _ => []
  ⟨segments, query.getD []⟩

def ofString (target : String) : Target := ofChars target.toList

/-- The bytes that a text stands for; a percent sign without two digits stands for itself. -/
def percentDecode : List Char → List UInt8
  | '%' :: a :: b :: rest =>
    match Text.hexValue? a, Text.hexValue? b with
    | some high, some low => UInt8.ofNat (high * 16 + low) :: percentDecode rest
    | _, _ => 0x25 :: percentDecode (a :: b :: rest)
  | c :: rest => String.utf8EncodeChar c ++ percentDecode rest
  | [] => []

/-- The text that a segment stands for. -/
def segmentText? (segment : List Char) : Option String :=
  (Utf8.decode? (percentDecode segment)).map String.ofList

/-- The text that a name or value in a query stands for; a plus sign is a blank there. -/
def queryText (cs : List Char) : String :=
  String.ofList (Utf8.decodeLossy (percentDecode (cs.map fun c ↦ if c = '+' then ' ' else c)))

/-- The named values of a query in their order. -/
def pairs (target : Target) : List (String × String) :=
  ((Text.splitOn '&' target.query).filter (!·.isEmpty)).map fun part ↦
    let (name, value) := Text.cut '=' part
    (queryText name, queryText (value.getD []))

end Target

end Moderation.Http
