import Moderation.Proofs.Json.Numeral
import Moderation.Proofs.Number.Scale
import Moderation.Proofs.Number.Shortest

/-!
# The values of numerals

Every number of its range is written as a numeral that has a value: a shortest decimal stays below
the point where reading overflows, the two largest doubles apart. Whatever a numeral stands for is
of its range in turn.
-/

namespace Moderation

namespace Numeral

variable {cs : List Char} {n : Numeral}

theorem ofDigitChars_eq (cs : List Char) (start : Nat) :
    Nat.ofDigitChars 10 cs start = start * tenTo cs.length + Nat.ofDigitChars 10 cs 0 := by
  rw [Nat.ofDigitChars_eq_ofDigitChars_zero, Nat.mul_comm]
  rfl

theorem ofDigitChars_lt (h : ∀ c ∈ cs, Json.isDigit c = true) :
    Nat.ofDigitChars 10 cs 0 < tenTo cs.length := by
  induction cs with
  | nil => exact tenTo_pos 0
  | cons c rest ih =>
    obtain ⟨hc, hrest⟩ := List.forall_mem_cons.mp h
    have hdigit : c.toNat - '0'.toNat ≤ 9 := by
      have hnine : c ≤ '9' := by
        simp only [Json.isDigit, Bool.and_eq_true, decide_eq_true_eq] at hc
        exact hc.2
      exact Nat.sub_le_of_le_add (show c.toNat ≤ 57 from hnine)
    have hless := ih hrest
    rw [Nat.ofDigitChars_cons, ofDigitChars_eq, List.length_cons, tenTo_succ]
    nlinarith

theorem leadingDigits_lt {start : Nat} (fits : start < UInt64.size) (cs : List Char) :
    (leadingDigits start cs).1 < UInt64.size := by
  induction cs generalizing start with
  | nil => exact fits
  | cons c rest ih =>
    unfold leadingDigits
    dsimp only
    split
    · rename_i hnext
      exact ih hnext
    · exact fits

/-- With zeros for the digits left, the digits taken make no more than all of them do. -/
theorem leadingDigits_le (h : ∀ c ∈ cs, Json.isDigit c = true) (start : Nat) :
    (leadingDigits start cs).2.length ≤ cs.length ∧
      (leadingDigits start cs).1 * tenTo (leadingDigits start cs).2.length ≤
        Nat.ofDigitChars 10 cs start := by
  induction cs generalizing start with
  | nil => exact ⟨Nat.le_refl _, by simp [leadingDigits, tenTo]⟩
  | cons c rest ih =>
    obtain ⟨hc, hrest⟩ := List.forall_mem_cons.mp h
    unfold leadingDigits
    dsimp only
    split
    · obtain ⟨hlength, hle⟩ := ih hrest (start * 10 + (Unsigned.digit? c).getD 0)
      refine ⟨Nat.le_succ_of_le hlength, ?_⟩
      rwa [Nat.ofDigitChars_cons, ← next_digit_eq hc]
    · refine ⟨Nat.le_refl _, ?_⟩
      rw [ofDigitChars_eq]
      exact Nat.le_add_right _ _

/-- Digits of a fraction that are left make the number no larger. -/
theorem leadingDigits_scaled_le (h : ∀ c ∈ cs, Json.isDigit c = true) (start : Nat) (e : Int) :
    ((leadingDigits start cs).1 : ℚ) *
        10 ^ (0 - (cs.length - (leadingDigits start cs).2.length : Nat) + e) ≤
      Nat.ofDigitChars 10 cs start * 10 ^ (e - cs.length) := by
  obtain ⟨hlength, hle⟩ := leadingDigits_le h start
  generalize leadingDigits start cs = taken at hlength hle ⊢
  have hexponent : 0 - ((cs.length - taken.2.length : Nat) : Int) + e =
      taken.2.length + (e - cs.length) := by
    omega
  calc (taken.1 : ℚ) * 10 ^ (0 - ((cs.length - taken.2.length : Nat) : Int) + e)
      = (taken.1 * tenTo taken.2.length : Nat) * 10 ^ (e - cs.length) := by
        rw [hexponent, zpow_add₀ (by norm_num), zpow_natCast, Nat.cast_mul, cast_tenTo, mul_assoc]
    _ ≤ Nat.ofDigitChars 10 cs start * 10 ^ (e - cs.length) := by gcongr

/-- The exponent that is written. -/
def writtenExponent : Option (Bool × List Char) → Int
  | none => 0
  | some (below, digits) => if below then -digitsValue digits else digitsValue digits

/-- What the numeral stands for without its sign. -/
def magnitude (n : Numeral) : ℚ :=
  digitsValue (n.whole ++ n.fraction.getD []) *
    10 ^ (writtenExponent n.exponent - (n.fraction.getD []).length)

theorem isSome_scaled? (negative : Bool) {significand : Nat} {start : Int}
    {exponent : Option (Bool × List Char)} (fits : significand < UInt64.size)
    (short : ∀ digits, exponent = some (false, digits) → digitsValue digits < twoTo 31)
    (below : significand * 10 ^ (start + writtenExponent exponent) ≤ Binary64.scaleLimit) :
    (scaled? negative significand start exponent).isSome = true := by
  cases exponent with
  | none =>
    rw [writtenExponent, add_zero] at below
    rw [scaled?, Option.isSome_map]
    exact Binary64.isSome_ofScaled? negative fits below
  | some exponent =>
    obtain ⟨down, digits⟩ := exponent
    unfold scaled?
    dsimp only
    split
    · rw [Option.isSome_map]
      refine Binary64.isSome_ofScaled? negative fits ?_
      cases down <;> exact below
    · rename_i hlarge
      cases down with
      | true => rw [if_pos (.inr rfl), Option.isSome_some]
      | false => exact absurd (short digits rfl) hlarge

/-- A numeral has a value as long as its whole part fits 64 bits, its exponent is short and it does
not come close to the end of the range. -/
theorem isSome_value? (wellFormed : n.WellFormed) (whole : digitsValue n.whole < UInt64.size)
    (short : ∀ digits, n.exponent = some (false, digits) → digitsValue digits < twoTo 31)
    (below : n.magnitude ≤ Binary64.scaleLimit) : n.value?.isSome = true := by
  have hwhole := digitsValue_eq wellFormed.whole.digits
  have hleading : leadingDigits 0 n.whole = (digitsValue n.whole, []) := by
    rw [hwhole] at whole ⊢
    exact leadingDigits_eq wellFormed.whole.digits whole
  obtain ⟨negative, digits, fraction, exponent⟩ := n
  dsimp only at whole short hwhole hleading
  unfold value?
  dsimp only
  rw [hleading]
  cases fraction with
  | none =>
    have hsmall : (digitsValue digits : ℚ) * 10 ^ (0 + writtenExponent exponent) ≤
        Binary64.scaleLimit := by
      simpa [magnitude] using below
    cases exponent with
    | none =>
      dsimp only
      rw [if_neg (by simp)]
      split
      · rfl
      split
      · exact isSome_scaled? true whole short hsmall
      · rfl
    | some exponent => exact isSome_scaled? negative whole short hsmall
  | some fraction =>
    have hfraction := (wellFormed.fraction fraction rfl).digits
    refine isSome_scaled? negative (leadingDigits_lt whole _) short (le_trans ?_ below)
    have hall : digitsValue (digits ++ fraction) =
        Nat.ofDigitChars 10 fraction (digitsValue digits) := by
      rw [digitsValue_eq (wellFormed.whole.append hfraction).digits, Nat.ofDigitChars_append, hwhole]
    rw [List.length_nil, Nat.cast_zero, magnitude, Option.getD_some, hall]
    exact leadingDigits_scaled_le hfraction _ _

end Numeral

namespace Number

variable {negative : Bool} {d : Decimal}

theorem length_whole_decimalNumeral_le (negative : Bool) (d : Decimal) :
    (decimalNumeral negative d).whole.length ≤ 16 := by
  unfold decimalNumeral
  dsimp only
  split
  · exact (by decide : 1 ≤ 16)
  split
  · rename_i h
    rw [List.length_append, List.length_replicate]
    omega
  split
  · rename_i h
    rw [List.length_take]
    omega
  split
  · exact (by decide : 1 ≤ 16)
  · rw [List.length_take]
    omega

theorem digitsValue_append_zeros (n count : Nat) :
    Numeral.digitsValue (digitsOf n ++ List.replicate count '0') = n * tenTo count := by
  have hdigits : ∀ c ∈ digitsOf n ++ List.replicate count '0', Json.isDigit c = true := fun c hc ↦
    (List.mem_append.mp hc).elim isDigit_of_mem_digitsOf Numeral.isDigit_of_mem_replicate
  rw [digitsValue_eq hdigits, Nat.ofDigitChars_append, Nat.ofDigitChars_replicate_zero,
    ← digitsValue_eq fun _ ↦ isDigit_of_mem_digitsOf, digitsValue_digitsOf, Nat.mul_comm]
  rfl

theorem digitsValue_zeros_append (n count : Nat) :
    Numeral.digitsValue (List.replicate count '0' ++ digitsOf n) = n := by
  have hdigits : ∀ c ∈ List.replicate count '0' ++ digitsOf n, Json.isDigit c = true := fun c hc ↦
    (List.mem_append.mp hc).elim Numeral.isDigit_of_mem_replicate isDigit_of_mem_digitsOf
  rw [digitsValue_eq hdigits, Nat.ofDigitChars_append, Nat.ofDigitChars_replicate_zero,
    Nat.mul_zero, ← digitsValue_eq fun _ ↦ isDigit_of_mem_digitsOf, digitsValue_digitsOf]

theorem writtenExponent_digitsOf (e : Int) :
    Numeral.writtenExponent (some (decide (e < 0), digitsOf e.natAbs)) = e := by
  unfold Numeral.writtenExponent
  dsimp only
  rw [digitsValue_digitsOf]
  split
  · rename_i h
    have := of_decide_eq_true h
    omega
  · rename_i h
    have := mt decide_eq_true h
    omega

theorem magnitude_eq_value {n : Numeral} {d : Decimal}
    (digits : Numeral.digitsValue (n.whole ++ n.fraction.getD []) = d.digits)
    (exponent : Numeral.writtenExponent n.exponent - (n.fraction.getD []).length = d.exponent) :
    n.magnitude = d.value := by
  rw [Numeral.magnitude, digits, exponent, Decimal.value]

/-- The numeral of a decimal stands for it in each of its forms. -/
theorem magnitude_decimalNumeral (negative : Bool) (d : Decimal) :
    (decimalNumeral negative d).magnitude = d.value := by
  have hdigits := digitsValue_digitsOf d.digits
  unfold decimalNumeral
  dsimp only
  split
  · rename_i hzero
    have hvalue : Numeral.digitsValue ['0', '0'] = 0 := rfl
    rw [Numeral.magnitude, Decimal.value, hzero, Option.getD_some, List.singleton_append, hvalue,
      Nat.cast_zero, zero_mul, zero_mul]
  split
  · rename_i hform
    have hzeros := digitsValue_append_zeros d.digits (d.exponent.toNat + 1)
    rw [List.replicate_succ', ← List.append_assoc] at hzeros
    have hexponent : d.exponent = (d.exponent.toNat : Int) := by omega
    rw [Numeral.magnitude, Option.getD_some, hzeros, Decimal.value, Nat.cast_mul, cast_tenTo,
      mul_assoc, ← zpow_natCast, ← zpow_add₀ (by norm_num)]
    congr 2
    simp only [Numeral.writtenExponent, List.length_singleton]
    omega
  split
  · refine magnitude_eq_value ?_ ?_
    · rw [Option.getD_some, List.take_append_drop, hdigits]
    · rw [Option.getD_some, List.length_drop, Numeral.writtenExponent]
      omega
  split
  · rename_i hform
    refine magnitude_eq_value ?_ ?_
    · rw [Option.getD_some, ← List.append_assoc, List.singleton_append, ← List.replicate_succ,
        digitsValue_zeros_append]
    · rw [Option.getD_some, List.length_append, List.length_replicate, Numeral.writtenExponent]
      omega
  · refine magnitude_eq_value ?_ ?_
    · split
      · rename_i hone
        rw [Option.getD_none, List.append_nil, List.take_of_length_le (Nat.le_of_eq hone), hdigits]
      · rw [Option.getD_some, List.take_append_drop, hdigits]
    · rw [writtenExponent_digitsOf]
      split
      · rename_i hone
        rw [Option.getD_none, List.length_nil, hone]
        omega
      · have hpos := List.length_pos_iff.mpr (digitsOf_ne_nil d.digits)
        rw [Option.getD_some, List.length_drop]
        omega

/-! ## Numbers of their range -/

theorem tenTo_le_of_digits {n : Nat} (hn : n ≠ 0) : tenTo ((digitsOf n).length - 1) ≤ n := by
  by_contra! hless
  have hlength := List.length_pos_iff.mpr (digitsOf_ne_nil n)
  rcases Nat.eq_zero_or_pos ((digitsOf n).length - 1) with hzero | hpos
  · rw [hzero] at hless
    exact hn (Nat.lt_one_iff.mp hless)
  · have := length_digitsOf_le hpos hless
    omega

/-- The exponent that is written for a decimal is short unless it is below zero. -/
theorem short_exponent (below : d.value ≤ Binary64.scaleLimit) {digits : List Char}
    (h : (decimalNumeral negative d).exponent = some (false, digits)) :
    Numeral.digitsValue digits < twoTo 31 := by
  unfold decimalNumeral at h
  dsimp only at h
  split at h
  · cases h
  rename_i hdigits
  iterate 3
    split at h
    · cases h
  obtain ⟨hsign, rfl⟩ := Prod.mk.inj (Option.some.inj h)
  have hlength := List.length_pos_iff.mpr (digitsOf_ne_nil d.digits)
  set places := ((digitsOf d.digits).length + d.exponent - 1).natAbs with hplaces
  have hexponent : (places : Int) = ((digitsOf d.digits).length - 1 : Nat) + d.exponent := by
    have := of_decide_eq_false hsign
    omega
  have hpower : (10 : ℚ) ^ places ≤ d.value := by
    rw [← zpow_natCast, hexponent, zpow_add₀ (by norm_num), zpow_natCast, ← cast_tenTo,
      Decimal.value]
    gcongr
    exact tenTo_le_of_digits hdigits
  rw [digitsValue_digitsOf]
  by_contra! hlong
  have hlarge : 308 < places := Nat.lt_of_lt_of_le (by decide) hlong
  have hover := (Binary64.overflow_lt_ten_pow hlarge).trans_le (hpower.trans below)
  exact absurd hover (not_lt.mpr Binary64.scaleLimit_lt_overflow.le)

theorem isSome_value?_decimalNumeral (negative : Bool) (below : d.value ≤ Binary64.scaleLimit) :
    (decimalNumeral negative d).value?.isSome = true := by
  have wellFormed := decimalNumeral_wellFormed negative d
  refine Numeral.isSome_value? wellFormed ?_ (fun _ ↦ short_exponent below)
    (by rwa [magnitude_decimalNumeral])
  rw [digitsValue_eq wellFormed.whole.digits]
  calc Nat.ofDigitChars 10 (decimalNumeral negative d).whole 0
      < tenTo (decimalNumeral negative d).whole.length :=
        Numeral.ofDigitChars_lt wellFormed.whole.digits
    _ ≤ tenTo 16 := Nat.pow_le_pow_right (by decide) (length_whole_decimalNumeral_le negative d)
    _ ≤ UInt64.size := by decide

/-- The two largest doubles come too close to the end of the range for the bound. -/
theorem isSome_value?_largest (negative : Bool) {mantissa : Nat}
    (h : mantissa = twoTo 53 - 1 ∨ mantissa = twoTo 53 - 2) :
    (real ⟨negative, mantissa, Binary64.greatestExponent⟩).numeral.value?.isSome = true := by
  rcases h with rfl | rfl <;> cases negative <;> decide +kernel

/-- Of the doubles only the two largest lie past the bound. -/
theorem value_shortest_le_scaleLimit {x : Binary64} (h : x.InRange)
    (small : x.exponent = Binary64.greatestExponent → x.mantissa + 2 < twoTo 53) :
    x.shortest.value ≤ Binary64.scaleLimit := by
  obtain ⟨hmantissa, -, hexponent⟩ := h
  refine x.value_shortest_le.trans ?_
  have hpos : (0 : ℚ) < 2 ^ Binary64.greatestExponent := by positivity
  unfold Binary64.scaleLimit
  rcases eq_or_lt_of_le hexponent with hequal | hless
  · have hbits : (x.mantissa : ℚ) + 3 ≤ 2 ^ 53 := by
      rw [← cast_twoTo]
      exact_mod_cast small hequal
    rw [hequal]
    exact mul_le_mul_of_nonneg_right (by linarith) hpos.le
  · have hbits : (x.mantissa : ℚ) + 1 ≤ 2 ^ 53 := by
      rw [← cast_twoTo]
      exact_mod_cast hmantissa
    have hpower : (2 : ℚ) ^ x.exponent ≤ 2 ^ Binary64.greatestExponent / 2 := by
      rw [div_eq_mul_inv, ← zpow_sub_one₀ two_ne_zero]
      exact zpow_le_zpow_right₀ one_le_two (by omega)
    calc ((x.mantissa : ℚ) + 1 / 2) * 2 ^ x.exponent
        ≤ 2 ^ 53 * (2 ^ Binary64.greatestExponent / 2) := by
          gcongr
          linarith
      _ ≤ (2 ^ 53 - 5 / 2) * 2 ^ Binary64.greatestExponent := by linarith

theorem isSome_value?_real {x : Binary64} (h : x.InRange) :
    (real x).numeral.value?.isSome = true := by
  by_cases small : x.exponent = Binary64.greatestExponent → x.mantissa + 2 < twoTo 53
  · exact isSome_value?_decimalNumeral x.negative (value_shortest_le_scaleLimit h small)
  · obtain ⟨hmantissa, -, -⟩ := h
    obtain ⟨negative, mantissa, exponent⟩ := x
    rw [Classical.not_imp] at small
    obtain ⟨rfl, hlarge⟩ := small
    dsimp only at hmantissa hlarge
    exact isSome_value?_largest negative (by omega)

/-- Whether the number is in the range of its kind. -/
def fits : Number → Bool
  | integer n => decide (InRange n)
  | real x => decide x.InRange

theorem fits_integer {n : Int} (h : InRange n) : (integer n).fits = true := decide_eq_true h

theorem fits_real {x : Binary64} (h : x.InRange) : (real x).fits = true := decide_eq_true h

/-- The numeral of a number that fits has a value. -/
theorem isSome_value? {n : Number} (h : n.fits = true) : n.numeral.value?.isSome = true := by
  cases n with
  | integer n => rw [value?_integer (of_decide_eq_true h), Option.isSome_some]
  | real x => exact isSome_value?_real (of_decide_eq_true h)

end Number

namespace Numeral

variable {negative : Bool} {significand : Nat} {start : Int} {number : Number}

theorem fits_of_scaled? {exponent : Option (Bool × List Char)}
    (h : scaled? negative significand start exponent = some number) : number.fits = true := by
  have hreal : ∀ e, (Binary64.ofScaled? negative significand e).map Number.real = some number →
      number.fits = true := by
    intro e he
    obtain ⟨x, hx, rfl⟩ := Option.map_eq_some_iff.mp he
    exact Number.fits_real (Binary64.inRange_of_ofScaled? hx)
  cases exponent with
  | none => exact hreal start h
  | some exponent =>
    obtain ⟨down, digits⟩ := exponent
    unfold scaled? at h
    dsimp only at h
    split at h
    · exact hreal _ h
    split at h
    · obtain rfl := Option.some.inj h
      exact Number.fits_real (Binary64.inRange_zero negative)
    · cases h

/-- Whatever a numeral stands for is in the range of its kind. -/
theorem fits_of_value? {n : Numeral} (h : n.value? = some number) : number.fits = true := by
  have hzero : 0 < UInt64.size := by decide
  have hsize := leadingDigits_lt hzero n.whole
  unfold value? at h
  dsimp only at h
  split at h
  · split at h
    · exact fits_of_scaled? h
    split at h
    · obtain rfl := Option.some.inj h
      exact Number.fits_integer (Number.inRange_natCast hsize)
    split at h
    · exact fits_of_scaled? h
    · rename_i hfloor
      obtain rfl := Option.some.inj h
      exact Number.fits_integer (Number.inRange_neg_natCast (by omega))
  · exact fits_of_scaled? h
  · exact fits_of_scaled? h

end Numeral

end Moderation
