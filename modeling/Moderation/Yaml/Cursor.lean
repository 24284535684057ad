/-!
# Places in YAML text

A cursor is a place in a text that knows its line and column. Lines end with one character: what
is written as a carriage return or as U+0085 is a line feed, and the separators of lines and of
paragraphs stay what they are. Between two words lies a gap of blanks and line breaks.
-/

namespace Moderation.Yaml

def isBlank (c : Char) : Bool := c == ' ' || c == '\t'

/-- The characters that end a line. -/
def isBreak (c : Char) : Bool := c == '\n' || c == '\u2028' || c == '\u2029'

/-- The character that is left of a line end of any kind. -/
def unifyBreaks : List Char → List Char
  | '\r' :: '\n' :: rest => '\n' :: unifyBreaks rest
  | '\r' :: rest => '\n' :: unifyBreaks rest
  | '\u0085' :: rest => '\n' :: unifyBreaks rest
  | c :: rest => c :: unifyBreaks rest
  | [] => []

/-- Whether a word ends before what comes next, if anything does. -/
def endsWord (next : Option Char) : Bool := next.all fun c ↦ isBlank c || isBreak c

/-- What lies between two words. -/
structure Gap where
  /-- The blanks before the first break. -/
  blanks : List Char
  breaks : List Char

namespace Gap

def isBroken (g : Gap) : Bool := !g.breaks.isEmpty

/-- What a gap in a text of several lines stands for. Blanks count only within a line. The first
break, if it is a line feed, stands for a blank or, before more breaks, for nothing. -/
def text (g : Gap) : List Char :=
  match g.breaks with
  | [] => g.blanks
  | ['\n'] => [' ']
  | '\n' :: more => more
  | breaks => breaks

end Gap

structure Cursor where
  /-- The text from here on. -/
  rest : List Char
  /-- The number of bytes before this place, one for a line break. -/
  offset : Nat
  /-- The number of characters before it in its line. -/
  column : Nat
  line : Nat

namespace Cursor

def start (text : List Char) : Cursor := ⟨text, 0, 0, 0⟩

def head? (c : Cursor) : Option Char := c.rest.head?

/-- Goes on within a line. -/
def skip (c : Cursor) (count : Nat) : Cursor :=
  let offset := (c.rest.take count).foldl (fun offset d ↦ offset + d.utf8Size) c.offset
  ⟨c.rest.drop count, offset, c.column + count, c.line⟩

def skipWhile (c : Cursor) (p : Char → Bool) : Cursor := c.skip (c.rest.takeWhile p).length

/-- Goes past a line break. -/
def nextLine (c : Cursor) : Cursor := ⟨c.rest.drop 1, c.offset + 1, 0, c.line + 1⟩

/-- Whether three characters that begin or end a document stand at the start of a line. -/
def isDocumentMark (c : Cursor) : Bool :=
  c.column = 0 && (['-', '-', '-'].isPrefixOf c.rest || ['.', '.', '.'].isPrefixOf c.rest) &&
    endsWord c.rest[3]?

/-- Goes past a gap, of which a break may lie behind already. No tab may stand left of the margin
in a line that has nothing before it. -/
def gapFrom? (margin : Nat) (broken : Bool) (offset column line : Nat) :
    List Char → Option (Gap × Cursor)
  | [] => some (⟨[], []⟩, ⟨[], offset, column, line⟩)
  | c :: rest =>
    if isBreak c then
      (gapFrom? margin true (offset + 1) 0 (line + 1) rest).map fun (gap, after) ↦
        ({ gap with breaks := c :: gap.breaks }, after)
    else if isBlank c then
      if broken && c == '\t' && column < margin then none
      else (gapFrom? margin broken (offset + 1) (column + 1) line rest).map fun (gap, after) ↦
        (if broken then gap else { gap with blanks := c :: gap.blanks }, after)
    else some (⟨[], []⟩, ⟨c :: rest, offset, column, line⟩)

def gap? (c : Cursor) (margin : Nat) (broken : Bool) : Option (Gap × Cursor) :=
  gapFrom? margin broken c.offset c.column c.line c.rest

/-- Goes past blanks and a comment to the next line. -/
def endLine? (c : Cursor) : Option Cursor :=
  let c := c.skipWhile isBlank
  let c := if c.head? == some '#' then c.skipWhile (!isBreak ·) else c
  match c.head? with
  | none => some c
  | some b => if isBreak b then some c.nextLine else none

end Cursor

end Moderation.Yaml
