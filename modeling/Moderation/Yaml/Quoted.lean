import Moderation.Text.Hex
import Moderation.Yaml.Cursor

/-!
# Quoted YAML scalars

A text in quotes may run over several lines, whose gaps count as in any text. In single quotes two
quotes stand for one; in double quotes a backslash begins an escape, and one at the end of a line
hides the line break. A reader is given at least as many steps as there are characters.
-/

namespace Moderation.Yaml

/-- A word in single quotes, with the number of characters that it takes. -/
def singleWord : List Char → List Char × Nat
  | [] => ([], 0)
  | '\'' :: '\'' :: rest =>
    let (word, count) := singleWord rest
    ('\'' :: word, count + 2)
  | c :: rest =>
    if c == '\'' || isBlank c || isBreak c then ([], 0)
    else
      let (word, count) := singleWord rest
      (c :: word, count + 1)

/-- The rest of a text in single quotes. -/
def readSingle : Nat → Cursor → Option (List Char × Cursor)
  | 0, _ => none
  | fuel + 1, c =>
    if c.isDocumentMark then none
    else
      let (word, count) := singleWord c.rest
      let c := c.skip count
      match c.head? with
      | none => none
      | some '\'' => some (word, c.skip 1)
      | some _ => do
        let (gap, c) ← c.gap? 0 false
        let (more, c) ← readSingle fuel c
        pure (word ++ gap.text ++ more, c)

def escape? : Char → Option Char
  | '0' => some '\x00'
  | 'a' => some '\x07'
  | 'b' => some '\x08'
  | 't' => some '\t'
  | '\t' => some '\t'
  | 'n' => some '\n'
  | 'v' => some '\x0b'
  | 'f' => some '\x0c'
  | 'r' => some '\r'
  | 'e' => some '\x1b'
  | ' ' => some ' '
  | '"' => some '"'
  | '/' => some '/'
  | '\\' => some '\\'
  | 'N' => some '\u0085'
  | '_' => some '\u00a0'
  | 'L' => some '\u2028'
  | 'P' => some '\u2029'
  | _ => none

/-- The number of hexadecimal digits after an escape letter. -/
def escapeWidth? : Char → Option Nat
  | 'x' => some 2
  | 'u' => some 4
  | 'U' => some 8
  | _ => none

def codePoint? (digits : List Char) (width : Nat) : Option Char := do
  if digits.length < width then none
  else
    let n ← (digits.take width).foldlM (fun n c ↦ (Text.hexValue? c).map (n * 16 + ·)) 0
    if n < 0xD800 ∨ (0xE000 ≤ n ∧ n < 0x110000) then some (Char.ofNat n) else none

/-- A word in double quotes, with the number of characters that it takes. The first argument counts
the characters of an escape that are still to be passed over. -/
def doubleWord? : Nat → List Char → Option (List Char × Nat)
  | _, [] => some ([], 0)
  | pass + 1, _ :: rest => (doubleWord? pass rest).map fun (word, count) ↦ (word, count + 1)
  | 0, c :: rest =>
    if c == '"' || isBlank c || isBreak c then some ([], 0)
    else if c == '\\' then
      match rest with
      | [] => none
      | letter :: digits =>
        if isBreak letter then some ([], 0)
        else match escape? letter, escapeWidth? letter with
          | some e, _ => (doubleWord? 1 rest).map fun (word, count) ↦ (e :: word, count + 1)
          | none, some width => do
            let e ← codePoint? digits width
            let (word, count) ← doubleWord? (width + 1) rest
            pure (e :: word, count + 1)
          | none, none => none
    else (doubleWord? 0 rest).map fun (word, count) ↦ (c :: word, count + 1)

/-- The rest of a text in double quotes. -/
def readDouble : Nat → Cursor → Option (List Char × Cursor)
  | 0, _ => none
  | fuel + 1, c =>
    if c.isDocumentMark then none
    else do
      let (word, count) ← doubleWord? 0 c.rest
      let c := c.skip count
      match c.head? with
      | none => none
      | some '"' => some (word, c.skip 1)
      | some '\\' => do
        let (gap, c) ← (c.skip 1).nextLine.gap? 0 true
        let (more, c) ← readDouble fuel c
        pure (word ++ gap.breaks ++ more, c)
      | some _ => do
        let (gap, c) ← c.gap? 0 false
        let (more, c) ← readDouble fuel c
        pure (word ++ gap.text ++ more, c)

end Moderation.Yaml
