import Moderation.Http.Message
import Moderation.Text.Split

/-!
# Media types

Whether the type that a body is declared as is a JSON type: `application/json` itself, or a type
of the same kind that is built on it. Case does not matter, and parameters may follow.
-/

namespace Moderation.Http.MediaType

/-- The characters of a token. -/
def isToken (c : Char) : Bool :=
  c.isAlphanum || "!#$%&'*+-.^_|~".toList.contains c || c == '\x60'

/-- The characters between quotes. -/
def isQuotable (c : Char) : Bool := 0x20 ≤ c.toNat && c.toNat != 0x7f

/-- What follows a value in quotes. The value holds at least one character, of which the first may
be a quote. -/
def afterQuoted : List Char → Option (List Char)
  | [] => none
  | first :: rest =>
    let (value, after) := Text.cut '"' rest
    if isQuotable first && value.all isQuotable then after else none

/-- Whether a text is a list of parameters, each with a name and a value, bare or in quotes. Blanks
may stand before a name and after quotes, and nothing after the last semicolon. -/
def isParameters : Nat → List Char → Bool
  | 0, _ => false
  | fuel + 1, cs =>
    let cs := cs.dropWhile (· == ' ')
    if cs.isEmpty then true
    else match Text.cut '=' cs with
      | (_, none) => false
      | (name, some rest) =>
        if name.isEmpty || !name.all isToken then false
        else match rest with
          | '"' :: quoted =>
            match (afterQuoted quoted).map fun rest ↦ rest.dropWhile (· == ' ') with
            | some [] => true
            | some (';' :: rest) => isParameters fuel rest
            | _ => false
          | _ => match Text.cut ';' rest with
            | (value, none) => value.all isToken
            | (value, some rest) =>
              !value.isEmpty && value.all isToken && isParameters fuel rest

/-- A subtype without what follows its last plus sign, and what follows. -/
def splitSuffix (subtype : List Char) : List Char × Option (List Char) :=
  match Text.cut '+' subtype.reverse with
  | (suffix, some base) =>
    if base.isEmpty then (subtype, none) else (base.reverse, some suffix.reverse)
  | (_, none) => (subtype, none)

def isJson (text : List Char) : Bool :=
  let text := text.map Char.toLower
  let (essence, parameters) := Text.cut ';' text
  match Text.cut '/' essence with
  | (_, none) => false
  | (type, some subtype) =>
    let (base, suffix) := splitSuffix subtype
    type == "application".toList && !subtype.isEmpty && subtype.all isToken &&
      (base == "json".toList || suffix == some "json".toList) &&
      match parameters with
      | none => true
      | some rest => isParameters (rest.length + 1) rest

/-- Whether the headers declare a JSON body. -/
def declaresJson (headers : Headers) : Bool :=
  ((headers.get? "content-type").bind Headers.text?).any isJson

end Moderation.Http.MediaType
