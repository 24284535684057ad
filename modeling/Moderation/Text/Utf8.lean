/-!
# UTF-8

Texts as bytes. Reading goes byte by byte and knows after every byte which ones may follow. Where
the bytes are no text, everything read since the last character counts as one fault, as far as it
could have been the beginning of a character.
-/

namespace Moderation.Utf8

def encodeChars (cs : List Char) : List UInt8 := cs.flatMap String.utf8EncodeChar

def encode (text : String) : List UInt8 := encodeChars text.toList

/-- A character of which some bytes were read. -/
structure Partial where
  /-- The bits read so far. -/
  value : Nat
  /-- How many bytes are missing, less one. -/
  missing : Nat
  /-- The range of the next byte. -/
  low : UInt8
  high : UInt8
deriving DecidableEq, Repr

/-- What a byte is where a character may begin. -/
inductive Lead where
  | char (value : Char)
  | opens (state : Partial)
  | invalid

/-- The first byte of a character. The range of the second excludes what has a shorter form, the
surrogates and what lies above the last code point. -/
def lead (b : UInt8) : Lead :=
  let n := b.toNat
  if n < 0x80 then .char (Char.ofNat n)
  else if n < 0xc2 then .invalid
  else if n < 0xe0 then .opens ⟨n - 0xc0, 0, 0x80, 0xbf⟩
  else if n = 0xe0 then .opens ⟨0, 1, 0xa0, 0xbf⟩
  else if n = 0xed then .opens ⟨0xd, 1, 0x80, 0x9f⟩
  else if n < 0xf0 then .opens ⟨n - 0xe0, 1, 0x80, 0xbf⟩
  else if n = 0xf0 then .opens ⟨0, 2, 0x90, 0xbf⟩
  else if n < 0xf4 then .opens ⟨n - 0xf0, 2, 0x80, 0xbf⟩
  else if n = 0xf4 then .opens ⟨4, 2, 0x80, 0x8f⟩
  else .invalid

/-- The state after one more byte of a character: the character itself after the last. -/
def Partial.push (state : Partial) (b : UInt8) : Char ⊕ Partial :=
  let value := state.value * 64 + (b.toNat - 0x80)
  match state.missing with
  | 0 => .inl (Char.ofNat value)
  | missing + 1 => .inr ⟨value, missing, 0x80, 0xbf⟩

/-- The character in the place of a fault. -/
def replacement : Char := '\ufffd'

/-- Reads on within a character, if one is begun. -/
def decodeFrom : Option Partial → List UInt8 → List (Option Char)
  | none, [] => []
  | some _, [] => [none]
  | none, b :: rest => match lead b with
    | .char c => some c :: decodeFrom none rest
    | .opens state => decodeFrom (some state) rest
    | .invalid => none :: decodeFrom none rest
  | some state, b :: rest =>
    if state.low ≤ b ∧ b ≤ state.high then
      match state.push b with
      | .inl c => some c :: decodeFrom none rest
      | .inr state => decodeFrom (some state) rest
    else match lead b with
      | .char c => none :: some c :: decodeFrom none rest
      | .opens state => none :: decodeFrom (some state) rest
      | .invalid => none :: none :: decodeFrom none rest

/-- The characters of a list of bytes, with a replacement for every fault. -/
def decodeLossy (bytes : List UInt8) : List Char :=
  (decodeFrom none bytes).map (·.getD replacement)

/-- The characters of a list of bytes that is a text. -/
def decode? (bytes : List UInt8) : Option (List Char) := (decodeFrom none bytes).mapM id

/-- The characters before the first fault. -/
def decodeSound (bytes : List UInt8) : List Char :=
  ((decodeFrom none bytes).takeWhile Option.isSome).filterMap id

end Moderation.Utf8
