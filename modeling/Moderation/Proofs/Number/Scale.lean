import Moderation.Json.Numeral
import Moderation.Proofs.Number.Rounding

/-!
# Scaling by powers of ten

A significand of 64 bits times a power of ten has a double unless the product comes close to the
end of the range: the significand, the power and their product are each rounded once.
-/

namespace Moderation.Binary64

variable {x y z : Binary64}

theorem mul?_eq (x y : Binary64) :
    x.mul? y = ofRatio? (x.negative != y.negative) (x.toRatio.1 * y.toRatio.1)
      (x.toRatio.2 * y.toRatio.2) := rfl

theorem div?_eq (x y : Binary64) :
    x.div? y = ofRatio? (x.negative != y.negative) (x.toRatio.1 * y.toRatio.2)
      (x.toRatio.2 * y.toRatio.1) := rfl

/-- A product below the overflow is a double. -/
theorem isSome_mul? (below : x.magnitude * y.magnitude < overflow) : (x.mul? y).isSome = true := by
  have hratio : ((x.toRatio.1 * y.toRatio.1 : Nat) : ℚ) / (x.toRatio.2 * y.toRatio.2 : Nat) =
      x.magnitude * y.magnitude := by
    rw [← toRatio_eq, ← toRatio_eq, div_mul_div_comm]
    push_cast
    rfl
  obtain ⟨z, hz, -⟩ := exists_ofRatio?_eq (x.negative != y.negative)
    (Nat.mul_pos x.toRatio_pos y.toRatio_pos) (hratio.trans_lt below)
  rw [mul?_eq, hz, Option.isSome_some]

theorem toRatio_fst_pos (positive : 0 < x.magnitude) : 0 < x.toRatio.1 := by
  rw [← toRatio_eq] at positive
  refine Nat.pos_of_ne_zero fun hzero ↦ ?_
  rw [hzero, Nat.cast_zero, zero_div] at positive
  exact lt_irrefl _ positive

/-- A quotient below the overflow is rounded, with an error that is small or relative. -/
theorem exists_div?_eq (positive : 0 < y.magnitude) (below : x.magnitude / y.magnitude < overflow) :
    ∃ z : Binary64, x.div? y = some z ∧
      |z.magnitude - x.magnitude / y.magnitude| ≤ max (x.magnitude / y.magnitude) 1 / 2 ^ 53 := by
  have hratio : ((x.toRatio.1 * y.toRatio.2 : Nat) : ℚ) / (x.toRatio.2 * y.toRatio.1 : Nat) =
      x.magnitude / y.magnitude := by
    rw [← toRatio_eq, ← toRatio_eq, div_div_div_eq]
    push_cast
    rfl
  rw [div?_eq, ← hratio]
  exact exists_ofRatio?_eq _ (Nat.mul_pos x.toRatio_pos (toRatio_fst_pos positive))
    (hratio.trans_lt below)

/-- A product is a double of the range, if there is one. -/
theorem inRange_of_mul? (h : x.mul? y = some z) : z.InRange :=
  inRange_of_ofRatio? (Nat.mul_pos x.toRatio_pos y.toRatio_pos) h

/-- So is a quotient. -/
theorem inRange_of_div? (positive : 0 < y.magnitude) (h : x.div? y = some z) : z.InRange :=
  inRange_of_ofRatio? (Nat.mul_pos x.toRatio_pos (toRatio_fst_pos positive)) h

theorem overflow_add_twoTo : overflow + twoTo 970 = twoTo 1024 := by
  have hhalf : (2 : ℚ) ^ greatestExponent / 2 = twoTo 970 := by
    rw [cast_twoTo, ← zpow_natCast, div_eq_iff two_ne_zero, ← zpow_add_one₀ two_ne_zero]
    rfl
  rw [← hhalf, overflow_eq, cast_twoTo, ← zpow_natCast]
  rfl

theorem ten_pow_lt_overflow {n : Nat} (h : n ≤ 308) : (10 : ℚ) ^ n < overflow := by
  have hgreatest : (tenTo 308 : ℚ) + twoTo 970 < twoTo 1024 := by
    exact_mod_cast (show tenTo 308 + twoTo 970 < twoTo 1024 by decide +kernel)
  calc (10 : ℚ) ^ n ≤ 10 ^ 308 := pow_le_pow_right₀ (by norm_num) h
    _ = tenTo 308 := (cast_tenTo 308).symm
    _ < overflow := by linarith [overflow_add_twoTo]

theorem overflow_lt_ten_pow {n : Nat} (h : 308 < n) : overflow < (10 : ℚ) ^ n := by
  have hgreatest : (twoTo 1024 : ℚ) < tenTo 309 := by
    exact_mod_cast (show twoTo 1024 < tenTo 309 by decide +kernel)
  have hhalf : (0 : ℚ) ≤ twoTo 970 := Nat.cast_nonneg _
  calc overflow < tenTo 309 := by linarith [overflow_add_twoTo]
    _ = 10 ^ 309 := cast_tenTo 309
    _ ≤ 10 ^ n := pow_le_pow_right₀ (by norm_num) h

/-- A power of ten is met up to rounding. -/
theorem abs_powerOfTen_sub_le {n : Nat} (h : n ≤ 308) :
    |(powerOfTen n).magnitude - 10 ^ n| ≤ 10 ^ n / 2 ^ 53 := by
  have hratio : ((tenTo n : Nat) : ℚ) / (1 : Nat) = 10 ^ n := by
    rw [cast_tenTo, Nat.cast_one, div_one]
  obtain ⟨y, hy, error⟩ := exists_ofRatio?_eq false Nat.one_pos
    (hratio.trans_lt (ten_pow_lt_overflow h))
  rw [hratio, max_eq_left (one_le_pow₀ (by norm_num))] at error
  rwa [powerOfTen, hy, Option.getD_some]

/-- None of them is anywhere near zero. -/
theorem half_le_powerOfTen {n : Nat} (h : n ≤ 308) : 1 / 2 ≤ (powerOfTen n).magnitude := by
  have hone : (1 : ℚ) ≤ 10 ^ n := one_le_pow₀ (by norm_num)
  have herror := (abs_le.mp (abs_powerOfTen_sub_le h)).1
  linarith

theorem powerOfTen_pos {n : Nat} (h : n ≤ 308) : 0 < (powerOfTen n).magnitude :=
  one_half_pos.trans_le (half_le_powerOfTen h)

/-- Divisions by powers of ten do not overflow: each of them adds a factor of four at most. -/
theorem isSome_scale?_of_neg {e : Int} {bound : ℚ} {fuel : Nat} (he : e < 0) (hone : 1 ≤ bound)
    (hx : x.magnitude ≤ bound) (below : bound * 4 ^ fuel < overflow) :
    (x.scale? e fuel).isSome = true := by
  induction fuel generalizing x e bound with
  | zero => rfl
  | succ fuel ih =>
    have hfour : (1 : ℚ) ≤ 4 ^ fuel := one_le_pow₀ (by norm_num)
    have hnext : 4 * bound * 4 ^ fuel < overflow := by
      rw [pow_succ] at below
      linarith
    have hdiv : ∀ n ≤ 308, ∃ y : Binary64, x.div? (powerOfTen n) = some y ∧
        y.magnitude ≤ 4 * bound := by
      intro n hn
      have hhalf := half_le_powerOfTen hn
      have hquotient : x.magnitude / (powerOfTen n).magnitude ≤ 2 * bound := by
        rw [div_le_iff₀ (by linarith)]
        nlinarith
      have hbound : 2 * bound < overflow := by nlinarith
      obtain ⟨y, hy, error⟩ := exists_div?_eq (x := x) (by linarith) (hquotient.trans_lt hbound)
      have hmax : max (x.magnitude / (powerOfTen n).magnitude) 1 ≤ 2 * bound :=
        max_le hquotient (by linarith)
      exact ⟨y, hy, by linarith [(abs_le.mp error).2]⟩
    unfold scale?
    rw [if_neg (not_le.mpr he), if_neg (not_le.mpr he)]
    split
    · rename_i hsmall
      obtain ⟨y, hy, -⟩ := hdiv _ hsmall
      rw [hy, Option.isSome_some]
    split
    · rfl
    · obtain ⟨y, hy, hle⟩ := hdiv 308 le_rfl
      rw [hy, Option.bind_some]
      exact ih (by omega) (by linarith) hle hnext

/-- Up to here nothing overflows, although three numbers are rounded. -/
def scaleLimit : ℚ := (2 ^ 53 - 5 / 2) * 2 ^ greatestExponent

/-- Below the limit two roundings do not lead to an overflow. -/
theorem scaleLimit_mul_lt : scaleLimit * (1 + 1 / 2 ^ 53) ^ 2 < overflow := by
  have hpos : (0 : ℚ) < 2 ^ greatestExponent := by positivity
  have hmantissa : (2 ^ 53 - 5 / 2) * (1 + 1 / 2 ^ 53) ^ 2 < (2 ^ 53 - 1 / 2 : ℚ) := by norm_num
  calc scaleLimit * (1 + 1 / 2 ^ 53) ^ 2
      = (2 ^ 53 - 5 / 2) * (1 + 1 / 2 ^ 53) ^ 2 * 2 ^ greatestExponent := by
        rw [scaleLimit]
        ring
    _ < overflow := mul_lt_mul_of_pos_right hmantissa hpos

theorem scaleLimit_lt_overflow : scaleLimit < overflow := by
  have hpos : (0 : ℚ) < 2 ^ greatestExponent := by positivity
  exact mul_lt_mul_of_pos_right (by norm_num) hpos

/-- A significand is rounded up by a relative error at most. -/
theorem exists_significand (negative : Bool) {significand : Nat}
    (fits : significand < UInt64.size) :
    ∃ x : Binary64, ofRatio? negative significand 1 = some x ∧
      x.magnitude ≤ significand * (1 + 1 / 2 ^ 53) := by
  rcases Nat.eq_zero_or_pos significand with rfl | hpos
  · refine ⟨zero negative, rfl, ?_⟩
    rw [zero, magnitude, Nat.cast_zero, zero_mul, zero_mul]
  · have hratio : (significand : ℚ) / (1 : Nat) = significand := by rw [Nat.cast_one, div_one]
    have hone : (1 : ℚ) ≤ significand := Nat.one_le_cast.mpr hpos
    have hbelow : (significand : ℚ) < overflow := by
      have hsize : (UInt64.size : ℚ) ≤ 10 ^ 20 := by norm_num
      exact (Nat.cast_lt.mpr fits).trans (hsize.trans_lt (ten_pow_lt_overflow (by decide)))
    obtain ⟨x, hx, error⟩ := exists_ofRatio?_eq negative Nat.one_pos (hratio.trans_lt hbelow)
    rw [hratio, max_eq_left hone] at error
    exact ⟨x, hx, by linarith [(abs_le.mp error).2]⟩

/-- Below the limit scaling succeeds, however it goes about it. -/
theorem isSome_ofScaled? (negative : Bool) {significand : Nat} {e : Int}
    (fits : significand < UInt64.size) (below : significand * 10 ^ e ≤ scaleLimit) :
    (ofScaled? negative significand e).isSome = true := by
  obtain ⟨x, hx, hle⟩ := exists_significand negative fits
  rw [ofScaled?, hx, Option.bind_some]
  rcases lt_or_ge e 0 with hneg | hnonneg
  · have hsmall : x.magnitude ≤ 10 ^ 20 := by
      have hsize : (significand : ℚ) ≤ UInt64.size := Nat.cast_le.mpr fits.le
      calc x.magnitude ≤ significand * (1 + 1 / 2 ^ 53) := hle
        _ ≤ UInt64.size * (1 + 1 / 2 ^ 53) := by gcongr
        _ ≤ 10 ^ 20 := by norm_num
    refine isSome_scale?_of_neg hneg (by norm_num) hsmall ?_
    exact lt_of_le_of_lt (by norm_num) (ten_pow_lt_overflow (n := 22) (by decide))
  obtain ⟨n, rfl⟩ := Int.eq_ofNat_of_zero_le hnonneg
  rw [zpow_natCast] at below
  unfold scale?
  rw [Int.natAbs_natCast]
  split
  · rename_i hsmall
    apply isSome_mul?
    have hpower : (powerOfTen n).magnitude ≤ 10 ^ n * (1 + 1 / 2 ^ 53) := by
      linarith [(abs_le.mp (abs_powerOfTen_sub_le hsmall)).2]
    calc x.magnitude * (powerOfTen n).magnitude
        ≤ significand * (1 + 1 / 2 ^ 53) * (10 ^ n * (1 + 1 / 2 ^ 53)) := by
          gcongr
          exact magnitude_nonneg _
      _ = significand * 10 ^ n * (1 + 1 / 2 ^ 53) ^ 2 := by ring
      _ ≤ scaleLimit * (1 + 1 / 2 ^ 53) ^ 2 := by gcongr
      _ < overflow := scaleLimit_mul_lt
  · rename_i hlarge
    rcases Nat.eq_zero_or_pos significand with rfl | hpos
    · obtain rfl : zero negative = x := Option.some.inj hx
      rfl
    · have hone : (1 : ℚ) ≤ significand := Nat.one_le_cast.mpr hpos
      have hpower : overflow < significand * 10 ^ n := by
        calc overflow < 10 ^ n := overflow_lt_ten_pow (not_le.mp hlarge)
          _ ≤ significand * 10 ^ n := le_mul_of_one_le_left (by positivity) hone
      exact absurd (hpower.trans_le below) (not_lt.mpr scaleLimit_lt_overflow.le)

/-- Scaling stays in the range. -/
theorem InRange.scale? {e : Int} {fuel : Nat} (h : x.InRange) (scaled : x.scale? e fuel = some y) :
    y.InRange := by
  induction fuel generalizing x e with
  | zero =>
    obtain rfl : x = y := Option.some.inj scaled
    exact h
  | succ fuel ih =>
    unfold Binary64.scale? at scaled
    split at scaled
    · rename_i hsmall
      split at scaled
      · exact inRange_of_mul? scaled
      · exact inRange_of_div? (powerOfTen_pos hsmall) scaled
    split at scaled
    · obtain rfl : x = y := Option.some.inj scaled
      exact h
    split at scaled
    · cases scaled
    · obtain ⟨z, hz, hy⟩ := Option.bind_eq_some_iff.mp scaled
      exact ih (inRange_of_div? (powerOfTen_pos le_rfl) hz) hy

/-- What scaling makes is in the range. -/
theorem inRange_of_ofScaled? {negative : Bool} {significand : Nat} {e : Int}
    (h : ofScaled? negative significand e = some x) : x.InRange := by
  obtain ⟨y, hy, hx⟩ := Option.bind_eq_some_iff.mp h
  exact (inRange_of_ofRatio? Nat.one_pos hy).scale? hx

end Moderation.Binary64
