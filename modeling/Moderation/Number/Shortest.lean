import Moderation.Number.Binary64

/-!
# Shortest decimals

The decimal with the fewest digits that rounds back to a given double, and of those the nearest
to it. Everything is exact arithmetic on naturals: the reals that round to a double form an
interval, and the grids of one, two, … seventeen digits are tried in turn.
-/

namespace Moderation

/-- The number `digits * 10 ^ exponent`. -/
structure Decimal where
  digits : Nat
  exponent : Int
deriving DecidableEq, Repr

namespace Decimal

/-- Whether `a * 10 ^ k ≤ b * 2 ^ e`. -/
def leBinary (a : Nat) (k : Int) (b : Nat) (e : Int) : Bool :=
  a * tenTo k.toNat * twoTo (-e).toNat ≤ b * twoTo e.toNat * tenTo (-k).toNat

/-- Whether `b * 2 ^ e ≤ a * 10 ^ k`. -/
def geBinary (a : Nat) (k : Int) (b : Nat) (e : Int) : Bool :=
  b * twoTo e.toNat * tenTo (-k).toNat ≤ a * tenTo k.toNat * twoTo (-e).toNat

/-- The floor of `b * 2 ^ e / 10 ^ k`. -/
def floorOnGrid (b : Nat) (e : Int) (k : Int) : Nat :=
  (b * twoTo e.toNat * tenTo (-k).toNat) / (tenTo k.toNat * twoTo (-e).toNat)

/-- Drops the zeros at the end of the digits; `fuel` bounds their number. -/
def trim : Nat → Decimal → Decimal
  | 0, d => d
  | fuel + 1, d =>
    if d.digits ≠ 0 ∧ d.digits % 10 = 0 then trim fuel ⟨d.digits / 10, d.exponent + 1⟩ else d

end Decimal

namespace Binary64

/-- The ends of the reals that round to `x`, in quarters of its last place. -/
def quarterEnds (x : Binary64) : Nat × Nat :=
  let low := if x.mantissa = twoTo 52 ∧ leastExponent < x.exponent then 1 else 2
  (4 * x.mantissa - low, 4 * x.mantissa + 2)

/-- Whether the decimal lies where reals round to `x`; the ends belong to an even mantissa. -/
def roundsFrom (x : Binary64) (d : Decimal) : Bool :=
  let (low, high) := x.quarterEnds
  let e := x.exponent - 2
  if x.mantissa % 2 = 0 then
    Decimal.geBinary d.digits d.exponent low e && Decimal.leBinary d.digits d.exponent high e
  else
    !Decimal.leBinary d.digits d.exponent low e && !Decimal.geBinary d.digits d.exponent high e

/-- The power of ten of the leading digit of a nonzero number. -/
def leadingPower (x : Binary64) : Int :=
  let bits : Int := (x.mantissa.log2 : Int) + x.exponent
  let guess := bits * 30103 / 100000
  if Decimal.leBinary 1 (guess + 1) x.mantissa x.exponent then guess + 1
  else if Decimal.leBinary 1 guess x.mantissa x.exponent then guess
  else guess - 1

/-- The nearer of the two neighbours of `x` on the grid of `count` digits, if one reads back. -/
def onGrid? (x : Binary64) (count : Nat) : Option Decimal :=
  let k := x.leadingPower - (count : Int) + 1
  let below := Decimal.floorOnGrid x.mantissa x.exponent k
  let lower : Decimal := ⟨below, k⟩
  let upper : Decimal := ⟨below + 1, k⟩
  match x.roundsFrom lower, x.roundsFrom upper with
  | true, true =>
    if Decimal.leBinary (2 * below + 1) k (2 * x.mantissa) x.exponent &&
        !(Decimal.geBinary (2 * below + 1) k (2 * x.mantissa) x.exponent && below % 2 == 0)
    then some upper else some lower
  | true, false => some lower
  | false, true => some upper
  | false, false => none

/-- Tries the grids of `count`, `count + 1`, … digits, at most `fuel` of them. -/
def shortestFrom (x : Binary64) : Nat → Nat → Decimal
  | 0, _ => ⟨0, 0⟩
  | fuel + 1, count => (x.onGrid? count).getD (shortestFrom x fuel (count + 1))

/-- The shortest decimal of the absolute value; seventeen digits always suffice. -/
def shortest (x : Binary64) : Decimal :=
  if x.isZero then ⟨0, 0⟩ else Decimal.trim 17 (x.shortestFrom 17 1)

end Binary64

end Moderation
