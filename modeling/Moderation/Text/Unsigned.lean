/-!
# Unsigned 64-bit integers as text

A text is read digit by digit, so the first fault in it decides the error: a character that is
no digit, or the digit with which the value leaves the range.
-/

namespace Moderation.Unsigned

inductive Fault where
  | empty
  | invalidDigit
  | tooLarge
deriving DecidableEq, Repr

def Fault.message : Fault → String
  | .empty => "cannot parse integer from empty string"
  | .invalidDigit => "invalid digit found in string"
  | .tooLarge => "number too large to fit in target type"

/-- The value of an ASCII digit. -/
def digit? (c : Char) : Option Nat :=
  if '0' ≤ c ∧ c ≤ '9' then some (c.toNat - '0'.toNat) else none

/-- The value after one more digit. -/
def push (value : Nat) (c : Char) : Except Fault Nat :=
  match digit? c with
  | none => .error .invalidDigit
  | some d => if value * 10 + d < UInt64.size then .ok (value * 10 + d) else .error .tooLarge

/-- Digits alone, with nothing before them. -/
def readDigits (cs : List Char) : Except Fault UInt64 :=
  match cs with
  | [] => .error .invalidDigit
  | cs => (cs.foldlM push 0).map UInt64.ofNat

/-- Digits after at most one plus sign. -/
def read (text : String) : Except Fault UInt64 :=
  match text.toList with
  | [] => .error .empty
  | '+' :: rest => readDigits rest
  | cs => readDigits cs

end Moderation.Unsigned
