import Moderation.Yaml.Literal
import Moderation.Yaml.Plain
import Moderation.Yaml.Quoted
import Moderation.Yaml.Tag

/-!
# Tokens of YAML text

The parts of a text in their order, with marks where a block or a key begins and where a block
ends. A key shows only by the colon behind it, so the place where one may begin is kept, and its
marks are put in front of the tokens that have been read since.
-/

namespace Moderation.Yaml

inductive ScalarStyle where
  | plain
  | quoted
  /-- Line by line under a bar. -/
  | literal
deriving DecidableEq

inductive Token where
  | directive (directive : Directive)
  | documentStart
  | documentEnd
  | blockList
  | blockMapping
  | blockEnd
  | flowList
  | flowListEnd
  | flowMapping
  | flowMappingEnd
  /-- A dash before an item of a block. -/
  | item
  | comma
  | key
  | value
  | alias (name : String)
  | anchor (name : String)
  | tag (tag : Tag)
  | scalar (style : ScalarStyle) (text : String)

/-- A place where a key may begin. -/
structure KeyPlace where
  /-- The number of tokens before it. -/
  tokens : Nat
  cursor : Cursor
  /-- Whether nothing else may begin there. -/
  required : Bool

/-- How far a text is read. -/
structure Progress where
  cursor : Cursor
  tokens : Array Token
  /-- The columns of the open blocks, the innermost first. -/
  blocks : List Nat
  /-- Whether a key may begin here. -/
  keyAllowed : Bool
  /-- Where a key may have begun. -/
  key : Option KeyPlace
  /-- The same for what is around each open bracket, the innermost first. -/
  outerKeys : List (Option KeyPlace)

namespace Progress

def start (text : List Char) : Progress := ⟨.start text, #[], [], true, none, []⟩

def inFlow (p : Progress) : Bool := !p.outerKeys.isEmpty

/-- The first column that is within the innermost block. -/
def margin (p : Progress) : Nat := p.blocks.head?.elim 0 (· + 1)

/-- Goes past the characters of a token. -/
def take (p : Progress) (count : Nat) (token : Token) : Progress :=
  { p with cursor := p.cursor.skip count, tokens := p.tokens.push token }

/-- Gives up the place of a key, unless there must be one. -/
def dropKey? (p : Progress) : Option Progress :=
  if p.key.any (·.required) then none else some { p with key := none }

/-- Keeps this place if a key may begin here. One must if it begins in the column of its block. -/
def markKey? (p : Progress) : Option Progress :=
  if p.keyAllowed then
    p.dropKey?.map fun p ↦
      let required := !p.inFlow && p.margin = p.cursor.column + 1
      { p with key := some ⟨p.tokens.size, p.cursor, required⟩ }
  else some p

/-- Whether a cursor is too far behind a place for a colon after a key that begins there: not on
the same line, or more than 1024 bytes away. -/
def KeyPlace.isStale (place : KeyPlace) (c : Cursor) : Bool :=
  place.cursor.line < c.line || place.cursor.offset + 1024 < c.offset

/-- Gives up the places that are left too far behind. -/
def dropStaleKeys? (p : Progress) : Option Progress :=
  let isStale : Option KeyPlace → Bool := (·.any (KeyPlace.isStale · p.cursor))
  let keep : Option KeyPlace → Option KeyPlace := (·.filter (!KeyPlace.isStale · p.cursor))
  if (p.key :: p.outerKeys).any fun key ↦ isStale key && key.any (·.required) then none
  else some { p with key := keep p.key, outerKeys := p.outerKeys.map keep }

/-- Opens a block in a column, unless one that is no less deep is open. Its mark stands behind a
number of tokens. -/
def openBlock (p : Progress) (column tokens : Nat) (token : Token) : Progress :=
  if p.inFlow || column < p.margin then p
  else { p with
    blocks := column :: p.blocks
    tokens := p.tokens.insertIdxIfInBounds tokens token }

/-- Opens a block here. -/
def openHere (p : Progress) (token : Token) : Progress :=
  p.openBlock p.cursor.column p.tokens.size token

/-- Closes the blocks that begin in a column or right of it. -/
def closeBlocks (p : Progress) (column : Nat) : Progress :=
  if p.inFlow then p
  else
    let closed := p.blocks.takeWhile (column ≤ ·)
    { p with
      blocks := p.blocks.drop closed.length
      tokens := p.tokens ++ Array.replicate closed.length .blockEnd }

/-- What ends all blocks. -/
def leaveBlocks? (p : Progress) : Option Progress :=
  (p.closeBlocks 0).dropKey?.map fun p ↦ { p with keyAllowed := false }

def readDirective? (p : Progress) : Option Progress := do
  let p ← p.leaveBlocks?
  let (directive, c) ← p.cursor.directive?
  pure { p with cursor := c, tokens := p.tokens.push (.directive directive) }

/-- An opening bracket, before which a key may begin. -/
def openFlow? (p : Progress) (token : Token) : Option Progress :=
  p.markKey?.map fun p ↦
    { p.take 1 token with keyAllowed := true, key := none, outerKeys := p.key :: p.outerKeys }

def closeFlow? (p : Progress) (token : Token) : Option Progress :=
  match p.outerKeys with
  | [] => none
  | key :: keys => some { p.take 1 token with keyAllowed := false, key := key, outerKeys := keys }

def readComma? (p : Progress) : Option Progress :=
  p.dropKey?.map fun p ↦ { p.take 1 .comma with keyAllowed := true }

/-- A dash before an item, for which there must be room for a key. -/
def readItem? (p : Progress) : Option Progress :=
  if p.inFlow || !p.keyAllowed then none
  else (p.openHere .blockList).dropKey?.map fun p ↦ { p.take 1 .item with keyAllowed := true }

/-- A question mark before a key. -/
def readKey? (p : Progress) : Option Progress :=
  if !p.inFlow && !p.keyAllowed then none
  else (p.openHere .blockMapping).dropKey?.map fun p ↦
    { p.take 1 .key with keyAllowed := !p.inFlow }

/-- A colon. It makes a key of what began at the place that is kept, or else stands alone. -/
def readValue? (p : Progress) : Option Progress :=
  match p.key with
  | some place =>
    let p := { p with
      tokens := p.tokens.insertIdxIfInBounds place.tokens .key
      keyAllowed := false
      key := none }
    some ((p.openBlock place.cursor.column place.tokens .blockMapping).take 1 .value)
  | none =>
    if !p.inFlow && !p.keyAllowed then none
    else some { (p.openHere .blockMapping).take 1 .value with keyAllowed := !p.inFlow }

/-- A token with which a key may begin. -/
def readWord? (p : Progress) (read : Option (Token × Cursor)) : Option Progress := do
  let p ← p.markKey?
  let (token, c) ← read
  pure { p with cursor := c, tokens := p.tokens.push token, keyAllowed := false }

def readQuoted? (p : Progress) (read : Option (List Char × Cursor)) : Option Progress :=
  p.readWord? (read.map fun (text, c) ↦ (.scalar .quoted (String.ofList text), c))

def readPlain? (p : Progress) (fuel : Nat) : Option Progress := do
  let (text, broken, c) ← readPlain p.inFlow p.margin fuel ⟨[], []⟩ p.cursor
  let p ← p.readWord? (some (.scalar .plain (String.ofList text), c))
  pure { p with keyAllowed := broken }

def readLines? (p : Progress) (folded : Bool) (fuel : Nat) : Option Progress := do
  let p ← p.dropKey?
  let (text, c) ← readLiteral folded p.margin fuel (p.cursor.skip 1)
  let style := if folded then ScalarStyle.quoted else .literal
  pure { p with
    cursor := c
    tokens := p.tokens.push (.scalar style (String.ofList text))
    keyAllowed := true }

/-- The characters that no plain scalar begins with unless another condition holds. -/
def isIndicator (c : Char) : Bool :=
  isFlowMark c || isBreak c ||
    [' ', '\t', '-', '?', ':', '#', '&', '*', '!', '|', '>', '\'', '"', '%', '@', '\x60'].contains c

/-- The token that begins with a character. -/
def readToken? (p : Progress) (fuel : Nat) (first : Char) : Option Progress :=
  let c := p.cursor
  let next := c.rest[1]?
  if c.column = 0 && first == '%' then p.readDirective?
  else if c.isDocumentMark then
    p.leaveBlocks?.map (·.take 3 (if first == '-' then .documentStart else .documentEnd))
  else if first == '[' then p.openFlow? .flowList
  else if first == '\x7b' then p.openFlow? .flowMapping
  else if first == ']' then p.closeFlow? .flowListEnd
  else if first == '\x7d' then p.closeFlow? .flowMappingEnd
  else if first == ',' then p.readComma?
  else if first == '-' && endsWord next then p.readItem?
  else if first == '?' && (p.inFlow || endsWord next) then p.readKey?
  else if first == ':' && (p.inFlow || endsWord next) then p.readValue?
  else if first == '*' then p.readWord? (c.anchor?.map fun (name, c) ↦ (.alias name, c))
  else if first == '&' then p.readWord? (c.anchor?.map fun (name, c) ↦ (.anchor name, c))
  else if first == '!' then p.readWord? ((c.tag? p.inFlow).map fun (tag, c) ↦ (.tag tag, c))
  else if first == '|' && !p.inFlow then p.readLines? false fuel
  else if first == '>' && !p.inFlow then p.readLines? true fuel
  else if first == '\'' then p.readQuoted? (readSingle fuel (c.skip 1))
  else if first == '"' then p.readQuoted? (readDouble fuel (c.skip 1))
  else if !isIndicator first || ['-', '?', ':'].contains first then p.readPlain? fuel
  else none

/-- Goes past blanks, breaks and comments. A tab counts as a blank only where no key may begin. -/
def toToken : Nat → Progress → Progress
  | 0, p => p
  | fuel + 1, p =>
    let c := p.cursor
    let c := if c.column = 0 && c.head? == some '\ufeff' then c.skip 1 else c
    let c := c.skipWhile fun d ↦ d == ' ' || (d == '\t' && (p.inFlow || !p.keyAllowed))
    let c := if c.head? == some '#' then c.skipWhile (!isBreak ·) else c
    if c.head?.any isBreak then
      toToken fuel { p with cursor := c.nextLine, keyAllowed := p.keyAllowed || !p.inFlow }
    else { p with cursor := c }

/-- The tokens up to the end of the text. -/
def finish? : Nat → Progress → Option (List Token)
  | 0, _ => none
  | fuel + 1, p => do
    let p ← (toToken (fuel + 1) p).dropStaleKeys?
    match p.cursor.head? with
    | none => (p.closeBlocks 0).dropKey?.map (·.tokens.toList)
    | some first => finish? fuel (← (p.closeBlocks (p.cursor.column + 1)).readToken? fuel first)

end Progress

/-- The characters that a text may hold. -/
def isPrintable (c : Char) : Bool :=
  let n := c.toNat
  c == '\t' || c == '\n' || c == '\r' || (0x20 ≤ n && n ≤ 0x7e) || n == 0x85 ||
    (0xa0 ≤ n && n ≤ 0xd7ff) || (0xe000 ≤ n && n ≤ 0xfffd) || 0x10000 ≤ n

/-- The tokens of a text, which may begin with a byte order mark. -/
def tokens? (text : List Char) : Option (List Token) :=
  let text := if text.head? == some '\ufeff' then text.drop 1 else text
  if text.all isPrintable then (Progress.start (unifyBreaks text)).finish? (text.length + 1)
  else none

end Moderation.Yaml
