import Mathlib.Algebra.Order.Group.Abs
import Mathlib.Tactic.Positivity
import Moderation.Proofs.Number.Magnitude

/-!
# Rounding to a double

A ratio is rounded to within half a unit in the last place. It has a double as long as it stays
below the largest one and another half unit.
-/

namespace Moderation.Binary64

variable {num den : Nat} {negative : Bool} {x : Binary64}

/-- The quotient is rounded by at most a half. -/
theorem abs_roundDiv_sub_le (num : Nat) (positive : 0 < den) :
    |(roundDiv num den : ℚ) - num / den| ≤ 1 / 2 := by
  have hden : (0 : ℚ) < den := Nat.cast_pos.mpr positive
  have hmod : ((num % den : Nat) : ℚ) < den := Nat.cast_lt.mpr (Nat.mod_lt num positive)
  have hdiv : (num : ℚ) / den = (num / den : Nat) + ((num % den : Nat) : ℚ) / den := by
    have hsum : (num : ℚ) = den * (num / den : Nat) + (num % den : Nat) := by
      exact_mod_cast (Nat.div_add_mod num den).symm
    rw [div_eq_iff hden.ne', add_mul, div_mul_cancel₀ _ hden.ne', mul_comm]
    exact hsum
  unfold roundDiv
  dsimp only
  rw [hdiv, abs_le]
  split
  · rename_i h
    have hhalf : (den : ℚ) ≤ 2 * (num % den : Nat) := by
      exact_mod_cast h.elim Nat.le_of_lt fun h ↦ Nat.le_of_eq h.1.symm
    have hfraction : 1 / 2 ≤ ((num % den : Nat) : ℚ) / den := by
      rw [div_le_div_iff₀ two_pos hden]
      linarith
    have hone : ((num % den : Nat) : ℚ) / den < 1 := (div_lt_one hden).mpr hmod
    push_cast
    constructor <;> linarith
  · rename_i h
    have hhalf : 2 * ((num % den : Nat) : ℚ) ≤ den := by
      exact_mod_cast Nat.le_of_not_lt fun hlt ↦ h (.inl hlt)
    have hfraction : ((num % den : Nat) : ℚ) / den ≤ 1 / 2 := by
      rw [div_le_div_iff₀ hden two_pos]
      linarith
    have hzero : 0 ≤ ((num % den : Nat) : ℚ) / den := by positivity
    constructor <;> linarith

theorem roundDiv_le {k : Nat} (positive : 0 < den) (h : (num : ℚ) / den ≤ k) :
    roundDiv num den ≤ k := by
  have hless : (roundDiv num den : ℚ) < (k + 1 : Nat) := by
    push_cast
    linarith [(abs_le.mp (abs_roundDiv_sub_le num positive)).2]
  exact Nat.lt_succ_iff.mp (Nat.cast_lt.mp hless)

theorem le_roundDiv {k : Nat} (positive : 0 < den) (h : (k : ℚ) ≤ num / den) :
    k ≤ roundDiv num den := by
  have hless : (k : ℚ) < (roundDiv num den + 1 : Nat) := by
    push_cast
    linarith [(abs_le.mp (abs_roundDiv_sub_le num positive)).1]
  exact Nat.lt_succ_iff.mp (Nat.cast_lt.mp hless)

theorem shiftRatio_pos (num : Nat) (positive : 0 < den) (shift : Int) :
    0 < (shiftRatio num den shift).2 := by
  unfold shiftRatio
  split
  · exact Nat.mul_pos positive (twoTo_pos _)
  · exact positive

theorem shiftRatio_eq (num den : Nat) (shift : Int) :
    ((shiftRatio num den shift).1 : ℚ) / (shiftRatio num den shift).2 =
      num / den / 2 ^ shift := by
  unfold shiftRatio
  rw [← twoTo_div_twoTo]
  split
  · rename_i h
    have hzero : (-shift).toNat = 0 := by omega
    rw [hzero]
    push_cast [cast_twoTo]
    rw [pow_zero, div_one, div_div]
  · rename_i h
    have hzero : shift.toNat = 0 := by omega
    rw [hzero]
    push_cast [cast_twoTo]
    rw [pow_zero, one_div, div_inv_eq_mul, mul_div_right_comm]

theorem two_zpow_log2_le (positive : 0 < num) : (2 : ℚ) ^ (num.log2 : Int) ≤ num := by
  rw [zpow_natCast]
  exact_mod_cast Nat.log2_self_le positive.ne'

theorem lt_two_zpow_log2 (num : Nat) : (num : ℚ) < 2 ^ ((num.log2 : Int) + 1) := by
  have h : num < 2 ^ (num.log2 + 1) := Nat.lt_log2_self
  exact_mod_cast h

/-- The exponent is the one that leaves 53 bits before the point, or the least one. -/
theorem exists_exact_exponent (hnum : 0 < num) (hden : 0 < den) :
    ∃ exact : Int, ratioExponent num den = max exact leastExponent ∧
      2 ^ (exact + 52) ≤ (num : ℚ) / den ∧ (num : ℚ) / den < 2 ^ (exact + 53) := by
  have hden' : (0 : ℚ) < den := Nat.cast_pos.mpr hden
  set guess : Int := (num.log2 : Int) - (den.log2 : Int) - 52 with hguess
  have hbelow : (num : ℚ) / den < 2 ^ (guess + 53) := by
    calc (num : ℚ) / den < 2 ^ ((num.log2 : Int) + 1) / 2 ^ (den.log2 : Int) :=
          div_lt_div₀ (lt_two_zpow_log2 num) (two_zpow_log2_le hden) (by positivity) (by positivity)
      _ = 2 ^ (guess + 53) := by
          rw [← zpow_sub₀ two_ne_zero]
          congr 1
          omega
  have habove : (2 : ℚ) ^ (guess + 51) ≤ num / den := by
    calc (2 : ℚ) ^ (guess + 51) = 2 ^ (num.log2 : Int) / 2 ^ ((den.log2 : Int) + 1) := by
          rw [← zpow_sub₀ two_ne_zero]
          congr 1
          omega
      _ ≤ num / den := by
          gcongr
          · exact two_zpow_log2_le hnum
          · exact (lt_two_zpow_log2 den).le
  -- The guess is one too large exactly when it leaves only 52 bits.
  have hexact : (shiftRatio num den guess).1 < (shiftRatio num den guess).2 * twoTo 52 ↔
      (num : ℚ) / den < 2 ^ (guess + 52) := by
    have hpos := Nat.cast_pos (α := ℚ).mpr (shiftRatio_pos num hden guess)
    rw [zpow_add₀ two_ne_zero, ← div_lt_iff₀' (by positivity), ← shiftRatio_eq, div_lt_iff₀ hpos,
      mul_comm, show (2 : ℚ) ^ (52 : Int) = twoTo 52 from (cast_twoTo 52).symm]
    norm_cast
  by_cases hshort : (num : ℚ) / den < 2 ^ (guess + 52)
  · refine ⟨guess - 1, ?_, ?_, ?_⟩
    · unfold ratioExponent
      dsimp only
      rw [← hguess, if_pos (hexact.mpr hshort)]
    · rwa [show guess - 1 + 52 = guess + 51 by omega]
    · rwa [show guess - 1 + 53 = guess + 52 by omega]
  · refine ⟨guess, ?_, not_lt.mp hshort, hbelow⟩
    unfold ratioExponent
    dsimp only
    rw [← hguess, if_neg (mt hexact.mp hshort)]

theorem leastExponent_le_ratioExponent (hnum : 0 < num) (hden : 0 < den) :
    leastExponent ≤ ratioExponent num den := by
  obtain ⟨exact, heq, -⟩ := exists_exact_exponent hnum hden
  rw [heq]
  exact le_max_right _ _

theorem ratio_lt (hnum : 0 < num) (hden : 0 < den) :
    (num : ℚ) / den < 2 ^ (ratioExponent num den + 53) := by
  obtain ⟨exact, heq, -, hlt⟩ := exists_exact_exponent hnum hden
  have hle : exact ≤ ratioExponent num den := heq ▸ le_max_left _ _
  exact hlt.trans_le (zpow_le_zpow_right₀ one_le_two (by omega))

/-- Above the least exponent the ratio has its 53 bits. -/
theorem le_ratio (hnum : 0 < num) (hden : 0 < den)
    (above : leastExponent < ratioExponent num den) :
    2 ^ (ratioExponent num den + 52) ≤ (num : ℚ) / den := by
  obtain ⟨exact, heq, hle, -⟩ := exists_exact_exponent hnum hden
  have hexact : ratioExponent num den = exact := by omega
  rwa [hexact]

/-- A mantissa that was rounded up to 54 bits is halved. -/
theorem ofRatio?_of_rounded {e : Int} {m : Nat} (hnum : num ≠ 0)
    (hexponent : ratioExponent num den = e)
    (hmantissa : roundDiv (shiftRatio num den e).1 (shiftRatio num den e).2 = m) :
    ofRatio? negative num den =
      if m = twoTo 53 then
        if greatestExponent < e + 1 then none else some ⟨negative, twoTo 52, e + 1⟩
      else if greatestExponent < e then none else some ⟨negative, m, e⟩ := by
  unfold ofRatio?
  rw [if_neg hnum, hexponent]
  dsimp only
  rw [hmantissa]
  by_cases hcarry : m = twoTo 53
  · rw [if_pos hcarry, if_pos hcarry]
  · rw [if_neg hcarry, if_neg hcarry]

/-- At most 53 bits, and no fewer unless the exponent is the least one. -/
structure IsNormal (x : Binary64) : Prop where
  mantissa_lt : x.mantissa < twoTo 53
  leastExponent_le : leastExponent ≤ x.exponent
  le_mantissa : leastExponent < x.exponent → twoTo 52 ≤ x.mantissa

/-- A ratio is rounded by at most half a unit in the last place, and what it is rounded to is a
double when its exponent is not too large. -/
theorem exists_rounded (negative : Bool) (hnum : 0 < num) (hden : 0 < den) :
    ∃ y : Binary64, y.IsNormal ∧
      |y.magnitude - num / den| ≤ 2 ^ ratioExponent num den / 2 ∧
      ofRatio? negative num den = if greatestExponent < y.exponent then none else some y := by
  have hleast := leastExponent_le_ratioExponent hnum hden
  have hlt := ratio_lt hnum hden
  have hle := le_ratio hnum hden
  -- Exponent and mantissa become variables, so that nothing unfolds how they are found.
  generalize hexponent : ratioExponent num den = e at hleast hlt hle ⊢
  have hpos : (0 : ℚ) < 2 ^ e := by positivity
  have hshift := shiftRatio_pos num hden e
  have hround := abs_roundDiv_sub_le (shiftRatio num den e).1 hshift
  have hmost : roundDiv (shiftRatio num den e).1 (shiftRatio num den e).2 ≤ twoTo 53 := by
    refine roundDiv_le hshift ?_
    rw [shiftRatio_eq, div_le_iff₀' hpos, cast_twoTo, ← zpow_natCast, ← zpow_add₀ two_ne_zero]
    exact hlt.le
  have hfull : leastExponent < e →
      twoTo 52 ≤ roundDiv (shiftRatio num den e).1 (shiftRatio num den e).2 := by
    intro habove
    refine le_roundDiv hshift ?_
    rw [shiftRatio_eq, le_div_iff₀' hpos, cast_twoTo, ← zpow_natCast, ← zpow_add₀ two_ne_zero]
    exact hle habove
  rw [shiftRatio_eq] at hround
  generalize hmantissa : roundDiv (shiftRatio num den e).1 (shiftRatio num den e).2 = m
    at hround hmost hfull
  rw [ofRatio?_of_rounded hnum.ne' hexponent hmantissa]
  have herror : |(m : ℚ) * 2 ^ e - num / den| ≤ 2 ^ e / 2 := by
    calc |(m : ℚ) * 2 ^ e - num / den| = |(m : ℚ) - num / den / 2 ^ e| * 2 ^ e := by
          rw [← abs_of_pos hpos, ← abs_mul, abs_of_pos hpos, sub_mul, div_mul_cancel₀ _ hpos.ne']
      _ ≤ 1 / 2 * 2 ^ e := by gcongr
      _ = 2 ^ e / 2 := by ring
  by_cases hcarry : m = twoTo 53
  · refine ⟨⟨negative, twoTo 52, e + 1⟩, ⟨?_, ?_, fun _ ↦ Nat.le_refl _⟩, ?_, if_pos hcarry⟩
    · exact Nat.pow_lt_pow_right (by decide) (by decide)
    · exact hleast.trans (by simp)
    · have hsame : (twoTo 52 : ℚ) * 2 ^ (e + 1) = m * 2 ^ e := by
        rw [hcarry, cast_twoTo, cast_twoTo, zpow_add_one₀ two_ne_zero]
        ring
      rwa [magnitude, hsame]
  · exact ⟨⟨negative, m, e⟩, ⟨Nat.lt_of_le_of_ne hmost hcarry, hleast, hfull⟩, herror,
      if_neg hcarry⟩

/-- Half a unit in the last place, measured by the ratio. -/
theorem half_unit_le (hnum : 0 < num) (hden : 0 < den) :
    (2 : ℚ) ^ ratioExponent num den / 2 ≤ max ((num : ℚ) / den) 1 / 2 ^ 53 := by
  have hunit : (2 : ℚ) ^ ratioExponent num den * 2 ^ 52 ≤ max ((num : ℚ) / den) 1 := by
    rw [← zpow_natCast, ← zpow_add₀ two_ne_zero]
    rcases eq_or_lt_of_le (leastExponent_le_ratioExponent hnum hden) with hleast | habove
    · refine le_max_of_le_right (zpow_le_one_of_nonpos₀ one_le_two ?_)
      rw [← hleast]
      decide
    · exact le_max_of_le_left (le_ratio hnum hden habove)
  linarith

/-! ## Overflow -/

/-- The ratio half a unit past the largest double, the least one that has no double. -/
def overflow : ℚ := (2 ^ 53 - 1 / 2) * 2 ^ greatestExponent

/-- The doubles: 53 bits and an exponent of the range. -/
def InRange (x : Binary64) : Prop :=
  x.mantissa < twoTo 53 ∧ leastExponent ≤ x.exponent ∧ x.exponent ≤ greatestExponent

instance (x : Binary64) : Decidable x.InRange := inferInstanceAs (Decidable (_ ∧ _ ∧ _))

theorem overflow_eq : overflow + 2 ^ greatestExponent / 2 = 2 ^ (greatestExponent + 53) := by
  rw [overflow, zpow_add₀ two_ne_zero, show (2 : ℚ) ^ (53 : Int) = 2 ^ 53 from zpow_natCast 2 53]
  ring

theorem ratioExponent_le (hnum : 0 < num) (hden : 0 < den) (below : (num : ℚ) / den < overflow) :
    ratioExponent num den ≤ greatestExponent := by
  by_contra! hlarge
  have hpower : (2 : ℚ) ^ (greatestExponent + 53) ≤ 2 ^ (ratioExponent num den + 52) :=
    zpow_le_zpow_right₀ one_le_two (by omega)
  have hle := le_ratio hnum hden (lt_trans (by decide) hlarge)
  have hpos : (0 : ℚ) < 2 ^ greatestExponent := by positivity
  linarith [overflow_eq]

/-- A ratio that does not overflow has a double, which is close to it. -/
theorem exists_ofRatio?_eq (negative : Bool) (hden : 0 < den)
    (below : (num : ℚ) / den < overflow) :
    ∃ y : Binary64, ofRatio? negative num den = some y ∧
      |y.magnitude - num / den| ≤ max ((num : ℚ) / den) 1 / 2 ^ 53 := by
  rcases Nat.eq_zero_or_pos num with rfl | hnum
  · refine ⟨zero negative, rfl, ?_⟩
    rw [zero, magnitude, Nat.cast_zero, zero_mul, zero_div, sub_zero, abs_zero]
    positivity
  obtain ⟨y, normal, error, heq⟩ := exists_rounded negative hnum hden
  have hexponent : y.exponent ≤ greatestExponent := by
    by_contra! hlarge
    have hmantissa : (2 : ℚ) ^ (52 : Int) ≤ y.mantissa := by
      rw [show (2 : ℚ) ^ (52 : Int) = (twoTo 52 : Nat) from (cast_twoTo 52).symm]
      exact Nat.cast_le.mpr (normal.le_mantissa (lt_trans (by decide) hlarge))
    have hmagnitude : (2 : ℚ) ^ (greatestExponent + 53) ≤ y.magnitude := by
      calc (2 : ℚ) ^ (greatestExponent + 53) = 2 ^ (52 : Int) * 2 ^ (greatestExponent + 1) := by
            rw [← zpow_add₀ two_ne_zero]
            congr 1
        _ ≤ y.mantissa * 2 ^ y.exponent := by
            gcongr
            · exact one_le_two
            · exact hlarge
    have hpower : (2 : ℚ) ^ ratioExponent num den ≤ 2 ^ greatestExponent :=
      zpow_le_zpow_right₀ one_le_two (ratioExponent_le hnum hden below)
    linarith [(abs_le.mp error).2, overflow_eq]
  refine ⟨y, ?_, error.trans (half_unit_le hnum hden)⟩
  rw [heq, if_neg (not_lt.mpr hexponent)]

theorem inRange_zero (negative : Bool) : (zero negative).InRange :=
  ⟨twoTo_pos 53, le_refl leastExponent, show leastExponent ≤ greatestExponent by decide⟩

/-- What a ratio is rounded to is a double. -/
theorem inRange_of_ofRatio? (hden : 0 < den) (h : ofRatio? negative num den = some x) :
    x.InRange := by
  rcases Nat.eq_zero_or_pos num with rfl | hnum
  · obtain rfl : zero negative = x := Option.some.inj h
    exact inRange_zero negative
  · obtain ⟨y, normal, -, heq⟩ := exists_rounded negative hnum hden
    rw [heq] at h
    split at h
    · cases h
    · rename_i hexponent
      obtain rfl := Option.some.inj h
      exact ⟨normal.mantissa_lt, normal.leastExponent_le, not_lt.mp hexponent⟩

end Moderation.Binary64
