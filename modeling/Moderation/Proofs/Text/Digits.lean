import Mathlib.Data.List.TakeDrop
import Mathlib.Tactic.Common
import Moderation.Json.Numeral
import Moderation.Json.Printer
import Moderation.Json.Reader
import Moderation.Time

/-!
# Decimal digits

What is known of the digits of a number: that they are digits, that they stand for the number, and
that the first of them is no zero. Readers take digits as far as they go.
-/

namespace Moderation

variable {c : Char} {cs rest : List Char} {n : Nat}

theorem digit?_of_isDigit (h : Json.isDigit c = true) :
    Unsigned.digit? c = some (c.toNat - '0'.toNat) := by
  unfold Unsigned.digit?
  rw [if_pos (by simpa [Json.isDigit] using h)]

theorem isDigit_of_mem_digitsOf (h : c ∈ Number.digitsOf n) : Json.isDigit c = true :=
  Nat.isDigit_of_mem_toDigits (by decide) (by decide) h

theorem digitsOf_ne_nil (n : Nat) : Number.digitsOf n ≠ [] := Nat.toDigits_ne_nil

/-- One digit more, the way it is read and the way digits are counted. -/
theorem next_digit_eq (h : Json.isDigit c = true) (start : Nat) :
    start * 10 + (Unsigned.digit? c).getD 0 = 10 * start + (c.toNat - '0'.toNat) := by
  rw [digit?_of_isDigit h, Option.getD_some, Nat.mul_comm]

/-- The value of digits that follow others. -/
theorem foldl_digits_eq (h : ∀ c ∈ cs, Json.isDigit c = true) (start : Nat) :
    cs.foldl (fun n c ↦ n * 10 + (Unsigned.digit? c).getD 0) start =
      Nat.ofDigitChars 10 cs start := by
  induction cs generalizing start with
  | nil => rfl
  | cons c rest ih =>
    obtain ⟨hc, hrest⟩ := List.forall_mem_cons.mp h
    rw [List.foldl_cons, next_digit_eq hc, ih hrest, Nat.ofDigitChars_cons]

theorem digitsValue_eq (h : ∀ c ∈ cs, Json.isDigit c = true) :
    Numeral.digitsValue cs = Nat.ofDigitChars 10 cs 0 := foldl_digits_eq h 0

/-- A number is the value of its digits. -/
theorem digitsValue_digitsOf (n : Nat) : Numeral.digitsValue (Number.digitsOf n) = n := by
  rw [digitsValue_eq fun _ ↦ isDigit_of_mem_digitsOf]
  exact Nat.ofDigitChars_ten_toDigits

/-- Digits that follow others make the value no smaller. -/
theorem le_ofDigitChars (cs : List Char) (start : Nat) : start ≤ Nat.ofDigitChars 10 cs start := by
  rw [Nat.ofDigitChars_eq_ofDigitChars_zero]
  have hpow : 0 < 10 ^ cs.length := Nat.pow_pos (by decide)
  exact Nat.le_add_right_of_le (Nat.le_mul_of_pos_left start hpow)

/-- Digits whose value fits 64 bits are all taken. -/
theorem leadingDigits_eq (h : ∀ c ∈ cs, Json.isDigit c = true) {start : Nat}
    (fits : Nat.ofDigitChars 10 cs start < UInt64.size) :
    Numeral.leadingDigits start cs = (Nat.ofDigitChars 10 cs start, []) := by
  induction cs generalizing start with
  | nil => rfl
  | cons c rest ih =>
    obtain ⟨hc, hrest⟩ := List.forall_mem_cons.mp h
    rw [Nat.ofDigitChars_cons] at fits ⊢
    unfold Numeral.leadingDigits
    dsimp only
    rw [next_digit_eq hc, if_pos (Nat.lt_of_le_of_lt (le_ofDigitChars _ _) fits), ih hrest fits]

namespace Unsigned

/-- Digits are pushed without an overflow as long as their value fits. -/
theorem foldlM_push_eq (h : ∀ c ∈ cs, Json.isDigit c = true) {start : Nat}
    (fits : Nat.ofDigitChars 10 cs start < UInt64.size) :
    cs.foldlM push start = .ok (Nat.ofDigitChars 10 cs start) := by
  induction cs generalizing start with
  | nil => rfl
  | cons c rest ih =>
    obtain ⟨hc, hrest⟩ := List.forall_mem_cons.mp h
    have hnext := next_digit_eq hc start
    rw [digit?_of_isDigit hc, Option.getD_some] at hnext
    rw [Nat.ofDigitChars_cons] at fits ⊢
    rw [List.foldlM_cons, push, digit?_of_isDigit hc]
    dsimp only
    rw [hnext, if_pos (Nat.lt_of_le_of_lt (le_ofDigitChars _ _) fits)]
    exact ih hrest fits

theorem toList_toString (n : UInt64) : (toString n).toList = Number.digitsOf n.toNat :=
  Nat.toList_repr

/-- A number is read from its digits. -/
theorem read_toString (n : UInt64) : read (toString n) = .ok n := by
  have hdigits : ∀ c ∈ Number.digitsOf n.toNat, Json.isDigit c = true :=
    fun _ ↦ isDigit_of_mem_digitsOf
  have hvalue : Nat.ofDigitChars 10 (Number.digitsOf n.toNat) 0 = n.toNat :=
    Nat.ofDigitChars_ten_toDigits
  have hread : (Number.digitsOf n.toNat).foldlM push 0 = .ok n.toNat := by
    rw [foldlM_push_eq hdigits (by rw [hvalue]; exact n.toNat_lt), hvalue]
  obtain ⟨c, rest, hcons⟩ := List.exists_cons_of_ne_nil (digitsOf_ne_nil n.toNat)
  have hplus : c ≠ '+' := by
    rintro rfl
    exact absurd (hdigits '+' (hcons ▸ List.mem_cons_self)) (by decide)
  rw [hcons] at hread
  rw [read, toList_toString, hcons]
  split
  · contradiction
  · rename_i heq
    exact absurd (List.cons.inj heq).1 hplus
  · change ((c :: rest).foldlM push 0).map UInt64.ofNat = _
    rw [hread]
    exact congrArg Except.ok UInt64.ofNat_toNat

end Unsigned

theorem digitsOf_of_lt (h : n < 10) : Number.digitsOf n = [n.digitChar] :=
  Nat.toDigits_of_lt_base h

theorem digitsOf_of_ge (h : 10 ≤ n) :
    Number.digitsOf n = Number.digitsOf (n / 10) ++ [(n % 10).digitChar] :=
  Nat.toDigits_of_base_le (by decide) h

theorem length_digitsOf_le {width : Nat} (positive : 0 < width) (h : n < tenTo width) :
    (Number.digitsOf n).length ≤ width :=
  (Nat.length_toDigits_le_iff (by decide) positive).mpr h

theorem head_digitsOf_ne_zero (h : n ≠ 0) : (Number.digitsOf n).head? ≠ some '0' := by
  induction n using Nat.strongRecOn with
  | ind n ih =>
    rcases Nat.lt_or_ge n 10 with hlt | hge
    · rw [digitsOf_of_lt hlt, List.head?_cons, Ne, Option.some.injEq]
      intro hzero
      have hvalue := Nat.toNat_digitChar_of_lt_ten hlt
      rw [hzero] at hvalue
      have : (48 : Nat) = 48 + n := hvalue
      omega
    · obtain ⟨first, rest, hcons⟩ := List.exists_cons_of_ne_nil (digitsOf_ne_nil (n / 10))
      have hfirst := ih (n / 10) (by omega) (by omega)
      rw [digitsOf_of_ge hge, hcons]
      rwa [hcons] at hfirst

/-- Only zero is written with a zero in front. -/
theorem length_eq_one_of_head_zero (h : (Number.digitsOf n).head? = some '0') :
    (Number.digitsOf n).length = 1 := by
  by_cases hn : n = 0
  · subst n
    rfl
  · exact absurd h (head_digitsOf_ne_zero hn)

/-- No digit comes next. -/
def StopsDigits (rest : List Char) : Prop := ∀ c ∈ rest.head?, Json.isDigit c = false

/-- Digits are taken up to where they stop. -/
theorem takeWhile_digits (h : ∀ c ∈ cs, Json.isDigit c = true) (stops : StopsDigits rest) :
    (cs ++ rest).takeWhile Json.isDigit = cs := by
  rw [List.takeWhile_append_of_pos h]
  cases rest with
  | nil => simp
  | cons c rest =>
    have hc : Json.isDigit c = false := stops c rfl
    rw [List.takeWhile_cons_of_neg (by simp [hc]), List.append_nil]

theorem dropWhile_digits (h : ∀ c ∈ cs, Json.isDigit c = true) (stops : StopsDigits rest) :
    (cs ++ rest).dropWhile Json.isDigit = rest := by
  rw [List.dropWhile_append_of_pos h]
  cases rest with
  | nil => rfl
  | cons c rest =>
    have hc : Json.isDigit c = false := stops c rfl
    rw [List.dropWhile_cons_of_neg (by simp [hc])]

end Moderation
