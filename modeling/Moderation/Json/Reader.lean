import Moderation.Document
import Moderation.Text.Hex

/-!
# Reading JSON text

The reader never fails: a text at fault gives a document that breaks off at the fault. A fuel of
one step per character is enough, because every step reads at least one.
-/

namespace Moderation.Json

/-- The four characters that may stand between the parts of a JSON text. -/
def isBlank (c : Char) : Bool := c == ' ' || c == '\n' || c == '\t' || c == '\r'

def skipBlank (cs : List Char) : List Char := cs.dropWhile isBlank

/-- Four hexadecimal digits. -/
def hexUnit? (a b c d : Char) : Option Nat := do
  let a ← Text.hexValue? a
  let b ← Text.hexValue? b
  let c ← Text.hexValue? c
  let d ← Text.hexValue? d
  pure (((a * 16 + b) * 16 + c) * 16 + d)

/-- One part of a quoted text: a character, or a UTF-16 unit written as an escape. -/
inductive TextUnit where
  | char (value : Char)
  | code (unit : Nat)

/-- The character that a one-letter escape stands for. -/
def simpleEscape? : Char → Option Char
  | '"' => some '"'
  | '\\' => some '\\'
  | '/' => some '/'
  | 'b' => some '\x08'
  | 'f' => some '\x0c'
  | 'n' => some '\n'
  | 'r' => some '\r'
  | 't' => some '\t'
  | _ => none

/-- The units of a quoted text up to its closing quote, and what follows it. -/
def readUnits : List Char → Option (List TextUnit × List Char)
  | [] => none
  | '"' :: rest => some ([], rest)
  | '\\' :: 'u' :: a :: b :: c :: d :: rest => do
    let unit ← hexUnit? a b c d
    let (units, rest) ← readUnits rest
    pure (.code unit :: units, rest)
  | '\\' :: c :: rest => do
    let c ← simpleEscape? c
    let (units, rest) ← readUnits rest
    pure (.char c :: units, rest)
  | c :: rest =>
    if c.toNat < 0x20 then none
    else do
      let (units, rest) ← readUnits rest
      pure (.char c :: units, rest)

/-- The characters of the units; an escaped surrogate stands only in a pair. -/
def joinUnits : List TextUnit → Option (List Char)
  | [] => some []
  | .char c :: rest => (joinUnits rest).map (c :: ·)
  | .code high :: .code low :: rest =>
    if 0xD800 ≤ high ∧ high < 0xDC00 then
      if 0xDC00 ≤ low ∧ low < 0xE000 then
        let point := 0x10000 + (high - 0xD800) * 0x400 + (low - 0xDC00)
        (joinUnits rest).map (Char.ofNat point :: ·)
      else none
    else if 0xDC00 ≤ high ∧ high < 0xE000 then none
    else (joinUnits (.code low :: rest)).map (Char.ofNat high :: ·)
  | .code unit :: rest =>
    if 0xD800 ≤ unit ∧ unit < 0xE000 then none
    else (joinUnits rest).map (Char.ofNat unit :: ·)

/-- A quoted text after its opening quote. -/
def readText? (cs : List Char) : Option (Option String × List Char) :=
  (readUnits cs).map fun (units, rest) ↦ ((joinUnits units).map String.ofList, rest)

def isDigit (c : Char) : Bool := '0' ≤ c && c ≤ '9'

/-- The digits after a point, of which there is at least one. -/
def readFraction? : List Char → Option (Option (List Char) × List Char)
  | '.' :: rest =>
    let (digits, rest) := rest.span isDigit
    if digits.isEmpty then none else some (some digits, rest)
  | rest => some (none, rest)

/-- An exponent with an optional sign and at least one digit. -/
def readExponent? : List Char → Option (Option (Bool × List Char) × List Char)
  | [] => some (none, [])
  | c :: rest =>
    if c = 'e' ∨ c = 'E' then
      let (negative, rest) := match rest with
        | '-' :: rest => (true, rest)
        | '+' :: rest => (false, rest)
        | rest => (false, rest)
      let (digits, rest) := rest.span isDigit
      if digits.isEmpty then none else some (some (negative, digits), rest)
    else some (none, c :: rest)

/-- A number: a whole part without zeros before it, then fraction and exponent if any. -/
def readNumeral? (cs : List Char) : Option (Numeral × List Char) := do
  let (negative, cs) := match cs with
    | '-' :: rest => (true, rest)
    | cs => (false, cs)
  let (whole, rest) := cs.span isDigit
  if whole.isEmpty || (whole.length ≠ 1 && whole.head? == some '0') then none
  else
    let (fraction, rest) ← readFraction? rest
    let (exponent, rest) ← readExponent? rest
    pure (⟨negative, whole, fraction, exponent⟩, rest)

/-- A document, and what follows it when it is whole. -/
abbrev Reading := Document × Option (List Char)

/-- A document that is read whole by `reading`, or broken. -/
def orBroken {α : Type} (document : α → Document) : Option (α × List Char) → Reading
  | some (value, rest) => (document value, some rest)
  | none => (.broken, none)

def readWord (word : List Char) (document : Document) (cs : List Char) : Reading :=
  if word.isPrefixOf cs then (document, some (cs.drop word.length)) else (.broken, none)

mutual

def readValue : Nat → List Char → Reading
  | 0, _ => (.broken, none)
  | fuel + 1, cs =>
    match skipBlank cs with
    | [] => (.broken, none)
    | '"' :: rest => orBroken .text (readText? rest)
    | '[' :: rest =>
      match skipBlank rest with
      | ']' :: rest => (.list [] .bracket, some rest)
      | rest =>
        let (items, after) := readItems fuel rest
        (.list items (if after.isSome then .bracket else .missing), after)
    | '\x7b' :: rest =>
      match skipBlank rest with
      | '\x7d' :: rest => (.mapping [] .bracket, some rest)
      | rest =>
        let (members, after) := readMembers fuel rest
        (.mapping members (if after.isSome then .bracket else .missing), after)
    | 'n' :: rest => readWord ['u', 'l', 'l'] .null rest
    | 't' :: rest => readWord ['r', 'u', 'e'] (.bool true) rest
    | 'f' :: rest => readWord ['a', 'l', 's', 'e'] (.bool false) rest
    | cs => orBroken .number (readNumeral? cs)

/-- The values of a list from one of them on, up to the closing bracket. -/
def readItems : Nat → List Char → List Document × Option (List Char)
  | 0, _ => ([], none)
  | fuel + 1, cs =>
    let (item, after) := readValue fuel cs
    match after with
    | none => ([item], none)
    | some rest =>
      match skipBlank rest with
      | ',' :: rest =>
        let (items, after) := readItems fuel rest
        (item :: items, after)
      | ']' :: rest => ([item], some rest)
      | _ => ([item], none)

/-- The members of an object from one of them on, up to the closing brace. -/
def readMembers : Nat → List Char → List (Document × Document) × Option (List Char)
  | 0, _ => ([], none)
  | fuel + 1, cs =>
    match skipBlank cs with
    | '"' :: rest =>
      match readText? rest with
      | none => ([], none)
      | some (key, rest) =>
        match skipBlank rest with
        | ':' :: rest =>
          let (value, after) := readValue fuel rest
          match after with
          | none => ([(.text key, value)], none)
          | some rest =>
            match skipBlank rest with
            | ',' :: rest =>
              let (members, after) := readMembers fuel rest
              ((.text key, value) :: members, after)
            | '\x7d' :: rest => ([(.text key, value)], some rest)
            | _ => ([(.text key, value)], none)
        | _ => ([(.text key, .broken)], none)
    | _ => ([], none)

end

/-- The document of a text, and whether nothing follows it but blanks. -/
def document (text : List Char) : Document × Bool :=
  let (document, after) := readValue (text.length + 1) text
  (document, match after with
    | some rest => (skipBlank rest).isEmpty
    | none => false)

end Moderation.Json
