import Moderation.Text.Split

/-!
# Addresses

The target that an address names behind its host. A backslash is a slash, tabs and line ends do not
count, nor do blanks at the end, and segments of one or two dots stand for this segment and the one
before. What a path or query does not hold as it is becomes bytes with percent signs.
-/

namespace Moderation.Http.Address

/-- Characters that do not count. -/
def isIgnored (c : Char) : Bool := c == '\t' || c == '\n' || c == '\r'

/-- Characters that do not count at the end. -/
def isTrimmed (c : Char) : Bool := c.toNat ≤ 0x20

def hexDigit (n : Nat) : Char := (Nat.toDigits 16 n).headD '0' |>.toUpper

def percentEncodeByte (b : UInt8) : List Char :=
  ['%', hexDigit (b.toNat / 16), hexDigit (b.toNat % 16)]

/-- A character as it is if it is one of ASCII that need not be encoded, or byte by byte. -/
def encodeChar (isReserved : Char → Bool) (c : Char) : List Char :=
  if 0x20 < c.toNat && c.toNat < 0x7f && !isReserved c then [c]
  else (String.utf8EncodeChar c).flatMap percentEncodeByte

/-- A segment of a path. Percent signs stay. -/
def encodeSegment (segment : List Char) : List Char :=
  segment.flatMap (encodeChar ['"', '#', '<', '>', '?', '\x60', '\x7b', '\x7d'].contains)

def encodeQuery (query : List Char) : List Char :=
  query.flatMap (encodeChar ['"', '#', '<', '>', '\''].contains)

/-- The segments after the first slash. An empty path has an empty segment. -/
def segments (path : List Char) : List (List Char) :=
  match path.map fun c ↦ if c = '\\' then '/' else c with
  | '/' :: rest => Text.splitOn '/' rest
  | path => Text.splitOn '/' path

/-- The dots of a segment that is nothing else, each written as it is or with a percent sign. -/
def dots? : List Char → Option Nat
  | [] => some 0
  | '.' :: rest => (dots? rest).map (· + 1)
  | '%' :: '2' :: 'e' :: rest => (dots? rest).map (· + 1)
  | '%' :: '2' :: 'E' :: rest => (dots? rest).map (· + 1)
  | _ => none

/-- The segments that are left when those of dots are followed, behind some in reverse order. After
dots at the end there is an empty segment. -/
def resolve (before : List (List Char)) (afterDots : Bool) : List (List Char) → List (List Char)
  | [] => (if afterDots then [] :: before else before).reverse
  | segment :: rest => match dots? segment with
    | some 1 => resolve before true rest
    | some 2 => resolve (before.drop 1) true rest
    | _ => resolve (segment :: before) false rest

/-- The path as it is sent. -/
def encodePath (path : List Char) : List Char :=
  (resolve [] false (segments path)).flatMap fun segment ↦ '/' :: encodeSegment segment

/-- The target that a text behind a host names, with more values in its query. A question mark in
the text begins the query, and what follows a number sign is not sent. -/
def target (text : List Char) (values : List (List Char)) : List Char :=
  let text := (text.reverse.dropWhile isTrimmed).reverse.filter (!isIgnored ·)
  let (path, query) := Text.cut '?' (Text.cut '#' text).1
  let parts := ((query.map encodeQuery).toList ++ values).filter (!·.isEmpty)
  let query := if parts.isEmpty then query.elim [] fun _ ↦ ['?']
    else '?' :: List.intercalate ['&'] parts
  encodePath path ++ query

end Moderation.Http.Address
