import Moderation.Number.Power

/-!
# Finite binary64 numbers

A finite double is a sign, a mantissa and a power of two. One operation makes them: a ratio of
naturals is rounded to the nearest double, a tie to the even mantissa. Products and quotients
are the exact ones, rounded once.
-/

namespace Moderation

/-- The number `mantissa * 2 ^ exponent`, negated when `negative`; the two zeros differ. -/
structure Binary64 where
  negative : Bool
  mantissa : Nat
  exponent : Int
deriving DecidableEq, Repr

namespace Binary64

/-- The exponent of the smallest positive double. -/
def leastExponent : Int := -1074

/-- The exponent of the largest finite double. -/
def greatestExponent : Int := 971

def zero (negative : Bool) : Binary64 := ⟨negative, 0, leastExponent⟩

instance : Inhabited Binary64 := ⟨zero false⟩

def isZero (x : Binary64) : Bool := x.mantissa == 0

def neg (x : Binary64) : Binary64 := { x with negative := !x.negative }

/-- The quotient rounded to the nearest natural, a half to the even one. -/
def roundDiv (num den : Nat) : Nat :=
  let q := num / den
  let r := num % den
  if den < 2 * r ∨ (2 * r = den ∧ q % 2 = 1) then q + 1 else q

/-- The two terms of `num / den / 2 ^ shift`, kept integral. -/
def shiftRatio (num den : Nat) (shift : Int) : Nat × Nat :=
  if 0 ≤ shift then (num, den * twoTo shift.toNat) else (num * twoTo (-shift).toNat, den)

/-- The exponent that leaves 53 bits of `num / den` before the point, or the least one. -/
def ratioExponent (num den : Nat) : Int :=
  let guess : Int := (num.log2 : Int) - (den.log2 : Int) - 52
  let (n, d) := shiftRatio num den guess
  let exact := if n < d * twoTo 52 then guess - 1 else guess
  max exact leastExponent

/-- The double nearest to `num / den`, and nothing when that exceeds the largest one. -/
def ofRatio? (negative : Bool) (num den : Nat) : Option Binary64 :=
  if num = 0 then some (zero negative)
  else
    let e := ratioExponent num den
    let (n, d) := shiftRatio num den e
    let m := roundDiv n d
    let (m, e) := if m = twoTo 53 then (twoTo 52, e + 1) else (m, e)
    if greatestExponent < e then none else some ⟨negative, m, e⟩

/-- The absolute value as a ratio. -/
def toRatio (x : Binary64) : Nat × Nat :=
  if 0 ≤ x.exponent then (x.mantissa * twoTo x.exponent.toNat, 1)
  else (x.mantissa, twoTo (-x.exponent).toNat)

/-- The rounded product, and nothing when it overflows. -/
def mul? (x y : Binary64) : Option Binary64 :=
  let (a, b) := x.toRatio
  let (c, d) := y.toRatio
  ofRatio? (x.negative != y.negative) (a * c) (b * d)

/-- The rounded quotient by a positive number, and nothing when it overflows. -/
def div? (x y : Binary64) : Option Binary64 :=
  let (a, b) := x.toRatio
  let (c, d) := y.toRatio
  ofRatio? (x.negative != y.negative) (a * d) (b * c)

/-- Equality of values: the two zeros are the same number. -/
def same (x y : Binary64) : Bool := x == y || (x.isZero && y.isZero)

theorem same_refl (x : Binary64) : x.same x = true := by simp [same]

end Binary64

end Moderation
