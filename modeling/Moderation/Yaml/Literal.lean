import Moderation.Yaml.Cursor

/-!
# Literal and folded YAML scalars

A text line by line under a bar, or under an angle bracket that folds its lines. Its indentation is
given by a digit, or it is that of the widest line up to the first that is not blank. What becomes
of the line breaks at the end is told by a sign.
-/

namespace Moderation.Yaml

/-- What becomes of the line breaks at the end. -/
inductive Chomping where
  /-- Only the break of the last line that is not empty is left. -/
  | clip
  | strip
  | keep
deriving DecidableEq

def Chomping.ofChar? : Char → Option Chomping
  | '-' => some strip
  | '+' => some keep
  | _ => none

/-- The value of a digit other than zero; a zero is no indentation. -/
def indentation? (c : Char) : Option (Option Nat) :=
  if c = '0' then some none
  else if '1' ≤ c ∧ c ≤ '9' then some (some (c.toNat - '0'.toNat))
  else none

/-- The marks after a bar: what becomes of the end, the indentation if given, and the number of
characters. -/
def literalMarks? : List Char → Option (Chomping × Option Nat × Nat)
  | [] => some (.clip, none, 0)
  | c :: rest =>
    match Chomping.ofChar? c, indentation? c with
    | some chomping, _ => match rest.head?.bind indentation? with
      | some none => none
      | some (some n) => some (chomping, some n, 2)
      | none => some (chomping, none, 1)
    | none, some none => none
    | none, some (some n) => match rest.head?.bind Chomping.ofChar? with
      | some chomping => some (chomping, some n, 2)
      | none => some (.clip, some n, 1)
    | none, none => some (.clip, none, 0)

/-- The breaks of the empty lines before the next line of the text, and the column of the widest of
these lines. Without an indentation all blanks before a line belong to it. No tab may stand in the
indentation. -/
def emptyLines? (indent : Option Nat) : Nat → Nat → Cursor → Option (List Char × Nat × Cursor)
  | 0, _, _ => none
  | fuel + 1, widest, c =>
    let blanks := (c.rest.takeWhile (· == ' ')).length
    let c := c.skip (indent.elim blanks fun n ↦ min blanks (n - c.column))
    let widest := max widest c.column
    if c.head? == some '\t' && indent.all (c.column < ·) then none
    else match c.head? with
      | none => some ([], widest, c)
      | some b =>
        if isBreak b then
          (emptyLines? indent fuel widest c.nextLine).map fun (breaks, found) ↦ (b :: breaks, found)
        else some ([], widest, c)

/-- What lies between two lines of the text. -/
structure LineGap where
  /-- The break of the line before. -/
  first : List Char
  /-- The breaks of empty lines. -/
  more : List Char
  /-- Whether the line before begins with a blank. -/
  afterBlank : Bool

/-- What the gap stands for before a line: in a folded text a break counts as the gap between two
words does, unless one of the two lines begins with a blank. -/
def LineGap.text (g : LineGap) (folded beforeBlank : Bool) : List Char :=
  if folded && g.first == ['\n'] && !g.afterBlank && !beforeBlank then
    if g.more.isEmpty then [' '] else g.more
  else g.first ++ g.more

/-- What the gap stands for at the end of the text. -/
def LineGap.ending (g : LineGap) : Chomping → List Char
  | .strip => []
  | .clip => g.first
  | .keep => g.first ++ g.more

/-- The lines of the text that are left, each of which begins in the column of the indentation. -/
def literalLines (folded : Bool) (chomping : Chomping) (indent : Nat) : Nat → LineGap → Cursor →
    Option (List Char × Cursor)
  | 0, _, _ => none
  | fuel + 1, gap, c =>
    if c.column ≠ indent ∨ c.rest.isEmpty then some (gap.ending chomping, c)
    else do
      let blank := c.head?.any isBlank
      let line := c.rest.takeWhile (!isBreak ·)
      let c := c.skip line.length
      let (first, c) := match c.head? with
        | some b => ([b], c.nextLine)
        | none => ([], c)
      let (more, _, c) ← emptyLines? (some indent) (fuel + 1) 0 c
      let (text, c) ← literalLines folded chomping indent fuel ⟨first, more, blank⟩ c
      pure (gap.text folded blank ++ line ++ text, c)

/-- The text after a bar. A given indentation counts from that of the block around it, and no text
begins left of the margin or of the second column. -/
def readLiteral (folded : Bool) (margin fuel : Nat) (c : Cursor) : Option (List Char × Cursor) := do
  let (chomping, given, count) ← literalMarks? c.rest
  let c ← (c.skip count).endLine?
  let given := given.map (margin - 1 + ·)
  let (more, widest, c) ← emptyLines? given fuel 0 c
  let indent := given.getD (max (max widest margin) 1)
  literalLines folded chomping indent fuel ⟨[], more, false⟩ c

end Moderation.Yaml
