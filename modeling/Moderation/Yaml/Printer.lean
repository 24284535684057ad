import Moderation.Yaml.Scalar

/-!
# Writing YAML text

A scalar stands without quotes where that reads back as the same text, in single quotes where it
would read as something else, and in double quotes where it holds characters that only an escape
can show. A text of several lines is written line by line after a bar.
-/

namespace Moderation.Yaml.Printer

/-- Whether a text without quotes reads as something else than a text, or looks like a number. -/
def isDoubtful (text : String) : Bool :=
  isPaddedDigits text.toList ||
    match value? text with
    | some (.string _) => false
    | _ => true

/-- Characters that are shown as they are. -/
def isShown (c : Char) : Bool :=
  let n := c.toNat
  n == 0x0a || (0x20 ≤ n && n ≤ 0x7e) || (0xa0 ≤ n && n ≤ 0xd7ff) ||
    (0xe000 ≤ n && n ≤ 0xfffd && n != 0xfeff)

def isLineBreak (c : Char) : Bool := c.toNat ∈ [0x0a, 0x0d, 0x85, 0x2028, 0x2029]

/-- A blank, or the end of the text. -/
def endsWord : Option Char → Bool
  | none => true
  | some c => c == ' ' || c == '\t' || isLineBreak c

/-- Characters that mean something where a value begins. -/
def openers : List Char :=
  ['#', ',', '[', ']', '\x7b', '\x7d', '&', '*', '!', '|', '>', '\'', '"', '%', '@', '\x60']

/-- Whether a text begins with an indicator of the format. -/
def opensIndicator (cs : List Char) : Bool :=
  match cs with
  | [] => false
  | c :: rest =>
    openers.contains c || (c ∈ ['?', ':', '-'] && endsWord rest.head?) ||
      "---".toList.isPrefixOf cs || "...".toList.isPrefixOf cs

/-- Whether a colon before a blank, or a number sign after one, stands behind the beginning. -/
def holdsIndicator : List Char → Bool
  | a :: b :: rest =>
    (b == ':' && endsWord rest.head?) || (b == '#' && endsWord (some a)) ||
      holdsIndicator (b :: rest)
  | _ => false

/-- Whether one kind of character is followed at once by another. -/
def meets (p q : Char → Bool) : List Char → Bool
  | a :: b :: rest => (p a && q b) || meets p q (b :: rest)
  | _ => false

def isSpace (c : Char) : Bool := c == ' '

def atEnd (p : Char → Bool) (cs : List Char) : Bool := cs.head?.any p || cs.getLast?.any p

/-- Whether nothing but an escape can show the text. -/
def needsEscapes (cs : List Char) : Bool := !cs.all isShown || meets isSpace isLineBreak cs

def allowsPlain (cs : List Char) : Bool :=
  !needsEscapes cs && !atEnd isSpace cs && !cs.any isLineBreak && !opensIndicator cs &&
    !holdsIndicator cs

def allowsSingle (cs : List Char) : Bool := !needsEscapes cs && !meets isLineBreak isSpace cs

def allowsLines (cs : List Char) : Bool := !needsEscapes cs && !cs.getLast?.any isSpace

/-- A text in single quotes. After a line break the next line begins with blanks. -/
def singleQuoted (indent : Nat) (cs : List Char) : List Char :=
  '\'' :: chars false cs ++ ['\'']
where
  chars : Bool → List Char → List Char
    | fresh, [] => if fresh then List.replicate indent ' ' else []
    | fresh, c :: rest =>
      if isLineBreak c then c :: chars true rest
      else
        (if fresh then List.replicate indent ' ' else []) ++
          (if c = '\'' then ['\'', '\''] else [c]) ++ chars false rest

def upperHex (width n : Nat) : List Char :=
  let digits := (Nat.toDigits 16 n).map Char.toUpper
  List.replicate (width - digits.length) '0' ++ digits

/-- The short escapes. -/
def shortEscapes : List (Nat × Char) :=
  [(0x00, '0'), (0x07, 'a'), (0x08, 'b'), (0x09, 't'), (0x0a, 'n'), (0x0b, 'v'), (0x0c, 'f'),
    (0x0d, 'r'), (0x1b, 'e'), (0x22, '"'), (0x5c, '\\'), (0x85, 'N'), (0xa0, '_'), (0x2028, 'L'),
    (0x2029, 'P')]

def escape (c : Char) : List Char :=
  let n := c.toNat
  if isShown c && !isLineBreak c && c != '"' && c != '\\' then [c]
  else match shortEscapes.lookup n with
    | some letter => ['\\', letter]
    | none =>
      if n ≤ 0xff then '\\' :: 'x' :: upperHex 2 n
      else if n ≤ 0xffff then '\\' :: 'u' :: upperHex 4 n
      else '\\' :: 'U' :: upperHex 8 n

def doubleQuoted (cs : List Char) : List Char := '"' :: cs.flatMap escape ++ ['"']

/-- The sign for what becomes of the line breaks at the end: all but one are kept with a plus
sign, and none with a minus sign. -/
def chomping (cs : List Char) : List Char :=
  match cs.reverse with
  | [] => ['-']
  | [c] => if isLineBreak c then ['+'] else ['-']
  | c :: d :: _ => if !isLineBreak c then ['-'] else if isLineBreak d then ['+'] else []

/-- The lines behind a bar, with blanks before each that has characters. -/
def indentLines (indent : Nat) : Bool → List Char → List Char
  | fresh, [] => if fresh then [] else ['\n']
  | fresh, c :: rest =>
    if isLineBreak c then c :: indentLines indent true rest
    else if fresh then List.replicate indent ' ' ++ c :: indentLines indent false rest
    else c :: indentLines indent false rest

/-- A text under a bar. Two more blanks than around it stand before its lines, which must be said
if it begins with some of its own. -/
def lineByLine (indent : Nat) (cs : List Char) : List Char :=
  let hint := if cs.head?.any fun c ↦ isSpace c || isLineBreak c then ['2'] else []
  '|' :: hint ++ chomping cs ++ '\n' :: indentLines indent true cs

/-- A text in quotes of the kind that is enough. -/
def inQuotes (indent : Nat) (cs : List Char) : List Char :=
  if allowsSingle cs then singleQuoted indent cs else doubleQuoted cs

/-- A text without line feeds. -/
def printLine (indent : Nat) (text : String) : List Char :=
  let cs := text.toList
  if !isDoubtful text && allowsPlain cs then cs else inQuotes indent cs

/-- A text with the end of its last line. -/
def printText (indent : Nat) (text : String) : List Char :=
  let cs := text.toList
  if cs.contains '\n' then
    if allowsLines cs then lineByLine indent cs else doubleQuoted cs ++ ['\n']
  else printLine indent text ++ ['\n']

/-- Whether a text may stand before a colon: it has no line break and at most 128 bytes. -/
def isSimpleKey (text : String) : Bool :=
  !text.toList.any isLineBreak && text.utf8ByteSize ≤ 128

/-- The items of a list in lines that begin with blanks. -/
def printItems (indent : Nat) (items : List String) : List Char :=
  items.flatMap fun item ↦
    List.replicate indent ' ' ++ '-' :: ' ' :: printText (indent + 2) item

/-- A list under its key. Where the key cannot stand before a colon, a question mark stands before
the key and a colon before the list. -/
def printList (key : String) (items : List String) : List Char :=
  if isSimpleKey key then
    printLine 2 key ++ ':' ::
      (if items.isEmpty then " []\n".toList else '\n' :: printItems 0 items)
  else
    '?' :: ' ' :: printText 2 key ++ ':' ::
      (if items.isEmpty then " []\n".toList else (printItems 2 items).drop 1)

/-- Lists of texts under keys. -/
def printLists (lists : List (String × List String)) : String :=
  String.ofList (lists.flatMap fun (key, items) ↦ printList key items)

end Moderation.Yaml.Printer
