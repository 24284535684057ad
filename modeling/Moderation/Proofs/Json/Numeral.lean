import Moderation.Proofs.Text.Digits

/-!
# Numerals in a text

A numeral is read off a text up to what ends a value. The numbers of a JSON value are written as
numerals.
-/

namespace Moderation

/-- What follows a value within a text: nothing, a comma or a closing bracket. -/
def EndsValue (rest : List Char) : Prop := ∀ c ∈ rest.head?, c = ',' ∨ c = ']' ∨ c = '\x7d'

/-- What ends a value is no digit. -/
theorem EndsValue.stopsDigits {rest : List Char} (h : EndsValue rest) : StopsDigits rest := by
  intro c hc
  rcases h c hc with rfl | rfl | rfl <;> rfl

namespace Numeral

def fractionChars : Option (List Char) → List Char
  | none => []
  | some digits => '.' :: digits

def exponentChars : Option (Bool × List Char) → List Char
  | none => []
  | some (below, digits) => 'e' :: (if below then '-' else '+') :: digits

def unsignedChars (n : Numeral) : List Char :=
  n.whole ++ (fractionChars n.fraction ++ exponentChars n.exponent)

/-- A numeral as it is written. -/
def chars (n : Numeral) : List Char :=
  if n.negative then '-' :: n.unsignedChars else n.unsignedChars

/-- Digits, and at least one of them. -/
structure AreDigits (cs : List Char) : Prop where
  ne_nil : cs ≠ []
  digits : ∀ c ∈ cs, Json.isDigit c = true

structure WellFormed (n : Numeral) : Prop where
  whole : AreDigits n.whole
  /-- No zero stands before another digit. -/
  lead : n.whole.head? = some '0' → n.whole.length = 1
  fraction : ∀ digits, n.fraction = some digits → AreDigits digits
  exponent : ∀ below digits, n.exponent = some (below, digits) → AreDigits digits

variable {n : Numeral} {rest : List Char}

/-- An exponent is read back from its characters. -/
theorem readExponent?_chars {exponent : Option (Bool × List Char)}
    (h : ∀ below digits, exponent = some (below, digits) → AreDigits digits)
    (ends : EndsValue rest) :
    Json.readExponent? (exponentChars exponent ++ rest) = some (exponent, rest) := by
  cases exponent with
  | none =>
    change Json.readExponent? rest = _
    cases rest with
    | nil => rfl
    | cons c rest =>
      have hc : ¬ (c = 'e' ∨ c = 'E') := by
        rcases ends c rfl with rfl | rfl | rfl <;> decide
      simp [Json.readExponent?, hc]
  | some exponent =>
    obtain ⟨below, digits⟩ := exponent
    obtain ⟨hne, hdigits⟩ := h below digits rfl
    have htake := takeWhile_digits hdigits ends.stopsDigits
    have hdrop := dropWhile_digits hdigits ends.stopsDigits
    cases below <;> simp [exponentChars, Json.readExponent?, htake, hdrop, hne]

theorem stopsDigits_exponentChars (exponent : Option (Bool × List Char)) (ends : EndsValue rest) :
    StopsDigits (exponentChars exponent ++ rest) := by
  cases exponent with
  | none => exact ends.stopsDigits
  | some exponent =>
    intro c hc
    obtain rfl : 'e' = c := by simpa [exponentChars] using hc
    rfl

/-- A fraction is read back from its characters, whether an exponent comes behind or not. -/
theorem readFraction?_chars {fraction : Option (List Char)}
    (h : ∀ digits, fraction = some digits → AreDigits digits)
    (exponent : Option (Bool × List Char)) (ends : EndsValue rest) :
    Json.readFraction? (fractionChars fraction ++ (exponentChars exponent ++ rest)) =
      some (fraction, exponentChars exponent ++ rest) := by
  have stops := stopsDigits_exponentChars exponent ends
  cases fraction with
  | none =>
    change Json.readFraction? (exponentChars exponent ++ rest) = _
    unfold Json.readFraction?
    split
    · rename_i tail htail
      cases exponent with
      | none =>
        change rest = _ at htail
        rcases ends '.' (by rw [htail]; rfl) with h | h | h <;> simp at h
      | some exponent => simp [exponentChars] at htail
    · rfl
  | some digits =>
    obtain ⟨hne, hdigits⟩ := h digits rfl
    have htake := takeWhile_digits hdigits stops
    have hdrop := dropWhile_digits hdigits stops
    simp [fractionChars, Json.readFraction?, htake, hdrop, hne]

theorem stopsDigits_fractionChars (fraction : Option (List Char))
    (exponent : Option (Bool × List Char)) (ends : EndsValue rest) :
    StopsDigits (fractionChars fraction ++ (exponentChars exponent ++ rest)) := by
  cases fraction with
  | none => exact stopsDigits_exponentChars exponent ends
  | some digits =>
    intro c hc
    obtain rfl : '.' = c := by simpa [fractionChars] using hc
    rfl

/-- A numeral without a sign starts with a digit. -/
theorem WellFormed.unsignedChars_eq_cons (h : n.WellFormed) :
    ∃ c cs, n.unsignedChars = c :: cs ∧ Json.isDigit c = true := by
  obtain ⟨c, cs, hwhole⟩ := List.exists_cons_of_ne_nil h.whole.ne_nil
  refine ⟨c, _, by rw [unsignedChars, hwhole, List.cons_append], h.whole.digits c ?_⟩
  rw [hwhole]
  exact List.mem_cons_self

/-- A numeral starts with a digit or its sign. -/
theorem WellFormed.chars_eq_cons (h : n.WellFormed) :
    ∃ c cs, n.chars = c :: cs ∧ (c = '-' ∨ Json.isDigit c = true) := by
  unfold chars
  split
  · exact ⟨'-', _, rfl, .inl rfl⟩
  · obtain ⟨c, cs, hcons, hdigit⟩ := h.unsignedChars_eq_cons
    exact ⟨c, cs, hcons, .inr hdigit⟩

/-- A numeral is read back from its characters. -/
theorem readNumeral?_chars (h : n.WellFormed) (ends : EndsValue rest) :
    Json.readNumeral? (n.chars ++ rest) = some (n, rest) := by
  have stops := stopsDigits_fractionChars n.fraction n.exponent ends
  have htake := takeWhile_digits h.whole.digits stops
  have hdrop := dropWhile_digits h.whole.digits stops
  have hlead : ¬ n.whole.length = 1 → ¬ n.whole.head? = some '0' := mt h.lead
  have hfraction := readFraction?_chars h.fraction n.exponent ends
  have hexponent := readExponent?_chars h.exponent ends
  have hcons := h.unsignedChars_eq_cons
  obtain ⟨hne, -⟩ := h.whole
  obtain ⟨negative, whole, fraction, exponent⟩ := n
  dsimp only at htake hdrop hlead hfraction hexponent hne
  unfold chars
  cases negative with
  | true =>
    simpa [Json.readNumeral?, unsignedChars, htake, hdrop, hne, hfraction, hexponent] using hlead
  | false =>
    obtain ⟨c, cs, hcons, hdigit⟩ := hcons
    change Json.readNumeral? (unsignedChars ⟨false, whole, fraction, exponent⟩ ++ rest) = _
    unfold Json.readNumeral?
    split
    rename_i sign cs' hsign
    obtain ⟨rfl, rfl⟩ : false = sign ∧
        unsignedChars ⟨false, whole, fraction, exponent⟩ ++ rest = cs' := by
      rw [hcons, List.cons_append] at hsign ⊢
      split at hsign
      · rename_i hminus
        obtain rfl := (List.cons.inj hminus).1
        simp [Json.isDigit] at hdigit
      · simpa using hsign
    simpa [unsignedChars, htake, hdrop, hne, hfraction, hexponent] using hlead

end Numeral

namespace Number

/-! ## The numerals of numbers -/

/-- The numeral of a decimal, in each of the forms that it may have. -/
def decimalNumeral (negative : Bool) (d : Decimal) : Numeral :=
  let digits := digitsOf d.digits
  let point : Int := digits.length + d.exponent
  if d.digits = 0 then ⟨negative, ['0'], some ['0'], none⟩
  else if 0 ≤ d.exponent ∧ point ≤ 16 then
    ⟨negative, digits ++ List.replicate d.exponent.toNat '0', some ['0'], none⟩
  else if 0 < point ∧ point ≤ 16 then
    ⟨negative, digits.take point.toNat, some (digits.drop point.toNat), none⟩
  else if -5 < point ∧ point ≤ 0 then
    ⟨negative, ['0'], some (List.replicate (-point).toNat '0' ++ digits), none⟩
  else
    ⟨negative, digits.take 1, if digits.length = 1 then none else some (digits.drop 1),
      some (decide (point - 1 < 0), digitsOf (point - 1).natAbs)⟩

def numeral : Number → Numeral
  | .integer n => ⟨decide (n < 0), digitsOf n.natAbs, none, none⟩
  | .real x => decimalNumeral x.negative x.shortest

theorem negative_decimalNumeral (negative : Bool) (d : Decimal) :
    (decimalNumeral negative d).negative = negative := by
  unfold decimalNumeral
  dsimp only
  repeat' split
  all_goals rfl

/-- The scientific notation is the one that the printer writes. -/
theorem unsignedChars_scientific (whole : List Char) (fraction : Option (List Char)) (e : Int)
    (negative : Bool) :
    Numeral.unsignedChars ⟨negative, whole, fraction, some (decide (e < 0), digitsOf e.natAbs)⟩ =
      whole ++ (Numeral.fractionChars fraction ++ exponentText e) := by
  simp [Numeral.unsignedChars, Numeral.exponentChars, exponentText]

/-- A double is printed as the numeral of its shortest decimal. -/
theorem realText_eq (x : Binary64) :
    realText x = (decimalNumeral x.negative x.shortest).chars := by
  have hunsigned : ∀ text, text = (decimalNumeral x.negative x.shortest).unsignedChars →
      (if x.negative then '-' :: text else text) =
        (decimalNumeral x.negative x.shortest).chars := by
    rintro _ rfl
    rw [Numeral.chars, negative_decimalNumeral]
  apply hunsigned
  unfold decimalNumeral
  dsimp only
  split
  · rfl
  split
  · simp [Numeral.unsignedChars, Numeral.fractionChars, Numeral.exponentChars]
  split
  · simp [Numeral.unsignedChars, Numeral.fractionChars, Numeral.exponentChars]
  split
  · simp [Numeral.unsignedChars, Numeral.fractionChars, Numeral.exponentChars]
  · rw [unsignedChars_scientific]
    split
    · rename_i hone
      rw [List.take_of_length_le (Nat.le_of_eq hone), Numeral.fractionChars, List.nil_append]
    · rw [Numeral.fractionChars, List.append_assoc]

/-- A number is printed as its numeral. -/
theorem text_eq (n : Number) : n.text = n.numeral.chars := by
  cases n with
  | integer n =>
    by_cases hn : n < 0
    · simp [text, integerText, numeral, Numeral.chars, Numeral.unsignedChars,
        Numeral.fractionChars, Numeral.exponentChars, hn]
    · simp [text, integerText, numeral, Numeral.chars, Numeral.unsignedChars,
        Numeral.fractionChars, Numeral.exponentChars, hn]
  | real x => exact realText_eq x

end Number

namespace Numeral

theorem areDigits_digitsOf (n : Nat) : AreDigits (Number.digitsOf n) :=
  ⟨digitsOf_ne_nil n, fun _ ↦ isDigit_of_mem_digitsOf⟩

theorem areDigits_zero : AreDigits ['0'] :=
  ⟨List.cons_ne_nil _ _, List.forall_mem_singleton.mpr rfl⟩

theorem AreDigits.append {cs more : List Char} (h : AreDigits cs)
    (digits : ∀ c ∈ more, Json.isDigit c = true) : AreDigits (cs ++ more) :=
  ⟨by simp [h.ne_nil], fun c hc ↦ (List.mem_append.mp hc).elim (h.digits c) (digits c)⟩

theorem isDigit_of_mem_replicate {count : Nat} {c : Char} (h : c ∈ List.replicate count '0') :
    Json.isDigit c = true := by
  rw [(List.mem_replicate.mp h).2]
  rfl

/-- A prefix of the digits of a number starts like the number. -/
theorem head_take_ne_zero {n count : Nat} (hn : n ≠ 0) (hcount : count ≠ 0) :
    ((Number.digitsOf n).take count).head? ≠ some '0' := by
  rw [List.head?_take, if_neg hcount]
  exact head_digitsOf_ne_zero hn

end Numeral

namespace Number

open Numeral (areDigits_digitsOf areDigits_zero isDigit_of_mem_replicate head_take_ne_zero)

/-- The numeral of a decimal has no leading zero, and digits where there have to be some. -/
theorem decimalNumeral_wellFormed (negative : Bool) (d : Decimal) :
    (decimalNumeral negative d).WellFormed := by
  unfold decimalNumeral
  dsimp only
  split
  · exact ⟨areDigits_zero, fun _ ↦ rfl, by simpa using areDigits_zero, by simp⟩
  rename_i hdigits
  have hhead := head_digitsOf_ne_zero hdigits
  have hall : ∀ c ∈ digitsOf d.digits, Json.isDigit c = true := fun _ ↦ isDigit_of_mem_digitsOf
  split
  · refine ⟨(areDigits_digitsOf _).append fun _ ↦ isDigit_of_mem_replicate, ?_,
      by simpa using areDigits_zero, by simp⟩
    intro hzero
    obtain ⟨first, rest, hcons⟩ := List.exists_cons_of_ne_nil (digitsOf_ne_nil d.digits)
    rw [hcons] at hzero hhead
    exact absurd hzero hhead
  rename_i hbelow
  split
  · rename_i hpoint
    obtain ⟨hpos, hle⟩ := hpoint
    have hexponent : d.exponent < 0 := Int.lt_of_not_ge fun h ↦ hbelow ⟨h, hle⟩
    have hcount : ((digitsOf d.digits).length + d.exponent).toNat ≠ 0 := by omega
    have hshort : ((digitsOf d.digits).length + d.exponent).toNat <
        (digitsOf d.digits).length := by omega
    refine ⟨⟨?_, fun c hc ↦ hall c (List.mem_of_mem_take hc)⟩,
      fun hzero ↦ absurd hzero (head_take_ne_zero hdigits hcount), ?_, by simp⟩
    · simp [hcount, digitsOf_ne_nil]
    · rintro _ ⟨⟩
      refine ⟨?_, fun c hc ↦ hall c (List.mem_of_mem_drop hc)⟩
      exact List.ne_nil_of_length_pos (by rw [List.length_drop]; omega)
  split
  · refine ⟨areDigits_zero, fun _ ↦ rfl, ?_, by simp⟩
    rintro _ ⟨⟩
    refine ⟨by simp [digitsOf_ne_nil], fun c hc ↦ ?_⟩
    exact (List.mem_append.mp hc).elim isDigit_of_mem_replicate (hall c)
  · refine ⟨⟨by simp [digitsOf_ne_nil], fun c hc ↦ hall c (List.mem_of_mem_take hc)⟩,
      fun hzero ↦ absurd hzero (head_take_ne_zero hdigits (by decide)), ?_, ?_⟩
    · intro digits hfraction
      split at hfraction
      · cases hfraction
      · rename_i hlong
        obtain rfl := Option.some.inj hfraction
        refine ⟨?_, fun c hc ↦ hall c (List.mem_of_mem_drop hc)⟩
        have hlength := List.length_pos_iff.mpr (digitsOf_ne_nil d.digits)
        exact List.ne_nil_of_length_pos (by rw [List.length_drop]; omega)
    · rintro _ _ ⟨⟩
      exact areDigits_digitsOf _

/-- So has the numeral of every number. -/
theorem numeral_wellFormed (n : Number) : n.numeral.WellFormed := by
  cases n with
  | integer n =>
    exact ⟨areDigits_digitsOf _, length_eq_one_of_head_zero, by simp [numeral], by simp [numeral]⟩
  | real x => exact decimalNumeral_wellFormed _ _

/-- A number is read off the text that it is written as. -/
theorem readNumeral?_text (n : Number) {rest : List Char} (ends : EndsValue rest) :
    Json.readNumeral? (n.text ++ rest) = some (n.numeral, rest) := by
  rw [text_eq]
  exact Numeral.readNumeral?_chars n.numeral_wellFormed ends

/-- Integers of the signed or unsigned 64-bit range. -/
def InRange (n : Int) : Prop := -(twoTo 63 : Nat) ≤ n ∧ n < (UInt64.size : Nat)

instance (n : Int) : Decidable (InRange n) := inferInstanceAs (Decidable (_ ∧ _))

/-- An integer is read as the one that was written. -/
theorem value?_integer {n : Int} (h : InRange n) :
    (integer n).numeral.value? = some (integer n) := by
  obtain ⟨hlow, hhigh⟩ := h
  have hfits : n.natAbs < UInt64.size := by
    have hfloor : twoTo 63 < UInt64.size := by decide
    omega
  have hleading : Numeral.leadingDigits 0 (digitsOf n.natAbs) = (n.natAbs, []) := by
    rw [leadingDigits_eq (fun _ ↦ isDigit_of_mem_digitsOf), ← digitsValue_eq
      (fun _ ↦ isDigit_of_mem_digitsOf), digitsValue_digitsOf]
    rwa [← digitsValue_eq (fun _ ↦ isDigit_of_mem_digitsOf), digitsValue_digitsOf]
  by_cases hn : n < 0
  · have hfloor : ¬ twoTo 63 < n.natAbs := by omega
    have hvalue : -(n.natAbs : Int) = n := by omega
    simpa [numeral, Numeral.value?, hleading, hn, Int.ne_of_lt hn, hfloor] using hvalue
  · have hvalue : (n.natAbs : Int) = n := by omega
    simpa [numeral, Numeral.value?, hleading, hn] using hvalue

theorem inRange_natCast {n : Nat} (h : n < UInt64.size) : InRange n := by
  unfold InRange
  omega

theorem inRange_neg_natCast {n : Nat} (h : n ≤ twoTo 63) : InRange (-n) := by
  have hsize : 0 < UInt64.size := by decide
  unfold InRange
  omega

theorem inRange_toNat (n : UInt64) : InRange n.toNat := inRange_natCast n.toNat_lt

/-- A 64-bit number comes back from the number that it is. -/
theorem toUInt64?_toNat (n : UInt64) : (integer n.toNat).toUInt64? = some n := by
  have h := (inRange_toNat n).2
  simpa [toUInt64?] using h

end Number

end Moderation
