import Mathlib.Algebra.Order.Field.Power
import Mathlib.Algebra.Order.Field.Rat
import Mathlib.Tactic.FieldSimp
import Mathlib.Tactic.Linarith
import Mathlib.Tactic.Ring
import Moderation.Number.Shortest

/-!
# What numbers stand for

The rationals that doubles and decimals stand for. Ratios and comparisons in naturals are those of
the rationals.
-/

namespace Moderation

theorem cast_twoTo (n : Nat) : (twoTo n : ℚ) = 2 ^ n := Nat.cast_pow 2 n

theorem cast_tenTo (n : Nat) : (tenTo n : ℚ) = 10 ^ n := Nat.cast_pow 10 n

theorem tenTo_succ (n : Nat) : tenTo (n + 1) = tenTo n * 10 := rfl

theorem twoTo_pos (n : Nat) : 0 < twoTo n := Nat.pow_pos (by decide)

theorem tenTo_pos (n : Nat) : 0 < tenTo n := Nat.pow_pos (by decide)

/-- A power is the quotient of two powers with natural exponents, and one of them is one. -/
theorem zpow_eq_div {base : ℚ} (positive : 0 < base) (e : Int) :
    base ^ e = base ^ e.toNat / base ^ (-e).toNat := by
  rw [← zpow_natCast, ← zpow_natCast, ← zpow_sub₀ positive.ne']
  congr 1
  omega

theorem twoTo_div_twoTo (e : Int) : (twoTo e.toNat : ℚ) / twoTo (-e).toNat = 2 ^ e := by
  rw [cast_twoTo, cast_twoTo, zpow_eq_div (by norm_num)]

theorem tenTo_div_tenTo (k : Int) : (tenTo k.toNat : ℚ) / tenTo (-k).toNat = 10 ^ k := by
  rw [cast_tenTo, cast_tenTo, zpow_eq_div (by norm_num)]

namespace Binary64

/-- What the double stands for without its sign. -/
def magnitude (x : Binary64) : ℚ := x.mantissa * 2 ^ x.exponent

theorem magnitude_nonneg (x : Binary64) : 0 ≤ x.magnitude := by
  unfold magnitude
  positivity

theorem toRatio_pos (x : Binary64) : 0 < x.toRatio.2 := by
  unfold toRatio
  split
  · exact Nat.one_pos
  · exact twoTo_pos _

/-- The ratio of a double is its magnitude. -/
theorem toRatio_eq (x : Binary64) : (x.toRatio.1 : ℚ) / x.toRatio.2 = x.magnitude := by
  unfold toRatio magnitude
  rw [← twoTo_div_twoTo]
  split
  · rename_i h
    have hzero : (-x.exponent).toNat = 0 := by omega
    rw [hzero]
    push_cast [cast_twoTo]
    ring
  · rename_i h
    have hzero : x.exponent.toNat = 0 := by omega
    rw [hzero]
    push_cast [cast_twoTo]
    ring

end Binary64

namespace Decimal

/-- What the decimal stands for. -/
def value (d : Decimal) : ℚ := d.digits * 10 ^ d.exponent

/-- The comparison with whole numbers is the comparison of the magnitudes. -/
theorem leBinary_iff {a b : Nat} {k e : Int} :
    leBinary a k b e = true ↔ (a : ℚ) * 10 ^ k ≤ b * 2 ^ e := by
  have hten : (0 : ℚ) < tenTo (-k).toNat := Nat.cast_pos.mpr (tenTo_pos _)
  have htwo : (0 : ℚ) < twoTo (-e).toNat := Nat.cast_pos.mpr (twoTo_pos _)
  rw [← tenTo_div_tenTo, ← twoTo_div_twoTo, ← mul_div_assoc, ← mul_div_assoc,
    div_le_div_iff₀ hten htwo, leBinary, decide_eq_true_eq]
  norm_cast

theorem geBinary_iff {a b : Nat} {k e : Int} :
    geBinary a k b e = true ↔ (b : ℚ) * 2 ^ e ≤ a * 10 ^ k := by
  have hten : (0 : ℚ) < tenTo (-k).toNat := Nat.cast_pos.mpr (tenTo_pos _)
  have htwo : (0 : ℚ) < twoTo (-e).toNat := Nat.cast_pos.mpr (twoTo_pos _)
  rw [← tenTo_div_tenTo, ← twoTo_div_twoTo, ← mul_div_assoc, ← mul_div_assoc,
    div_le_div_iff₀ htwo hten, geBinary, decide_eq_true_eq]
  norm_cast

/-- Zeros at the end of the digits count for nothing. -/
theorem value_trim (fuel : Nat) (d : Decimal) : (trim fuel d).value = d.value := by
  induction fuel generalizing d with
  | zero => rfl
  | succ fuel ih =>
    unfold trim
    split
    · rename_i h
      obtain ⟨less, hless⟩ := Nat.dvd_of_mod_eq_zero h.2
      rw [ih]
      simp only [value, hless, Nat.mul_div_cancel_left less (by decide : 0 < 10)]
      rw [zpow_add_one₀ (by norm_num)]
      push_cast
      ring
    · rfl

end Decimal

end Moderation
