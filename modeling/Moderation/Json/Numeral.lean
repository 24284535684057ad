import Moderation.Document
import Moderation.Text.Unsigned

/-!
# The value of a JSON numeral

A numeral without fraction and exponent is an integer when it fits 64 bits, signed or unsigned.
Any other is a binary64 number, found in two rounding steps: as many leading digits as fit 64
bits make a significand, which is rounded and then scaled by a rounded power of ten. Digits that
do not fit before the point only raise the power, and after the point they are dropped.
-/

namespace Moderation

namespace Binary64

/-- The double nearest to a power of ten up to the 308th. -/
def powerOfTen (n : Nat) : Binary64 := (ofRatio? false (tenTo n) 1).getD (zero false)

/-- `x * 10 ^ exponent`, rounded once, or once more for each 308 powers below the range of the
powers of ten; nothing when it overflows. -/
def scale? (x : Binary64) (exponent : Int) : Nat → Option Binary64
  | 0 => some x
  | fuel + 1 =>
    if exponent.natAbs ≤ 308 then
      if 0 ≤ exponent then x.mul? (powerOfTen exponent.natAbs)
      else x.div? (powerOfTen exponent.natAbs)
    else if x.isZero then some x
    else if 0 ≤ exponent then none
    else (x.div? (powerOfTen 308)).bind fun y ↦ y.scale? (exponent + 308) fuel

/-- A 64-bit significand times a power of ten; three steps reach zero from any significand. -/
def ofScaled? (negative : Bool) (significand : Nat) (exponent : Int) : Option Binary64 :=
  (ofRatio? negative significand 1).bind fun x ↦ x.scale? exponent 3

end Binary64

namespace Numeral

/-- The number that the leading digits extend `start` to while it fits 64 bits, and the digits
left. -/
def leadingDigits (start : Nat) : List Char → Nat × List Char
  | [] => (start, [])
  | c :: cs =>
    let next := start * 10 + (Unsigned.digit? c).getD 0
    if next < UInt64.size then leadingDigits next cs else (start, c :: cs)

def digitsValue (cs : List Char) : Nat :=
  cs.foldl (fun n c ↦ n * 10 + (Unsigned.digit? c).getD 0) 0

/-- Scales by a written exponent; one beyond 32 bits overflows or leaves zero. -/
def scaled? (negative : Bool) (significand : Nat) (start : Int) :
    Option (Bool × List Char) → Option Number
  | none => (Binary64.ofScaled? negative significand start).map .real
  | some (below, digits) =>
    let e := digitsValue digits
    if e < twoTo 31 then
      (Binary64.ofScaled? negative significand (if below then start - e else start + e)).map .real
    else if significand = 0 ∨ below then some (.real (Binary64.zero negative))
    else none

/-- The value of the numeral, and nothing when it exceeds the largest double. -/
def value? (n : Numeral) : Option Number :=
  let (significand, left) := leadingDigits 0 n.whole
  match n.fraction, n.exponent with
  | none, none =>
    if !left.isEmpty then scaled? n.negative significand left.length none
    else if !n.negative then some (.integer significand)
    else if significand = 0 ∨ twoTo 63 < significand then scaled? true significand 0 none
    else some (.integer (-significand))
  | none, exponent => scaled? n.negative significand left.length exponent
  | some fraction, exponent =>
    let (more, dropped) := leadingDigits significand fraction
    let start : Int := left.length - (fraction.length - dropped.length : Nat)
    scaled? n.negative more start exponent

end Numeral

end Moderation
