import Moderation.Proofs.Text.Digits

/-!
# Times as texts

A valid time is read from its text as the time that was written: the numbers have as many digits as
the reader takes, and no blank stands between them.
-/

namespace Moderation.Time

variable {rest : List Char} {width n : Nat}

theorem isBlank_of_isDigit {c : Char} (h : isDigit c = true) : Text.isBlank c = false := by
  have hrange : 48 ≤ c.toNat ∧ c.toNat ≤ 57 := by
    simpa [isDigit, Char.le_def, UInt32.le_iff_toNat_le] using h
  rw [Bool.eq_false_iff]
  intro hblank
  simp only [Text.isBlank, Text.blankRanges, List.any_cons, List.any_nil, Bool.or_eq_true,
    Bool.and_eq_true, decide_eq_true_eq, Bool.false_eq_true, or_false] at hblank
  omega

theorem trimStart_cons {c : Char} {cs : List Char} (h : Text.isBlank c = false) :
    Text.trimStart (c :: cs) = c :: cs :=
  List.dropWhile_cons_of_neg (by simp [h])

theorem isDigit_of_mem_padded {c : Char} (h : c ∈ padded width n) : isDigit c = true := by
  rcases List.mem_append.mp h with hzero | hdigit
  · rw [(List.mem_replicate.mp hzero).2]
    rfl
  · exact isDigit_of_mem_digitsOf hdigit

theorem padded_ne_nil : padded width n ≠ [] := by
  simp [padded, Nat.toDigits_ne_nil]

theorem padded_eq_cons (width n : Nat) :
    ∃ c cs, padded width n = c :: cs ∧ isDigit c = true := by
  obtain ⟨c, cs, hcons⟩ := List.exists_cons_of_ne_nil (padded_ne_nil : padded width n ≠ [])
  exact ⟨c, cs, hcons, isDigit_of_mem_padded (hcons ▸ List.mem_cons_self)⟩

/-- Leading zeros do not change the number. -/
theorem digitsValue_padded : digitsValue (padded width n) = n := by
  have hzeros : ∀ count, digitsValue (List.replicate count '0') = 0 := by
    intro count
    induction count with
    | zero => rfl
    | succ count ih => exact ih
  rw [padded, digitsValue, List.foldl_append]
  change (Nat.toDigits 10 n).foldl _ (digitsValue (List.replicate _ '0')) = n
  rw [hzeros]
  exact digitsValue_digitsOf n

theorem length_padded (positive : 0 < width) (fits : n < tenTo width) :
    (padded width n).length = width := by
  have hlength : (Nat.toDigits 10 n).length ≤ width := length_digitsOf_le positive fits
  rw [padded, List.length_append, List.length_replicate]
  exact Nat.sub_add_cancel hlength

theorem trimStart_padded (rest : List Char) :
    Text.trimStart (padded width n ++ rest) = padded width n ++ rest := by
  obtain ⟨c, cs, hcons, hdigit⟩ := padded_eq_cons width n
  rw [hcons, List.cons_append]
  exact trimStart_cons (isBlank_of_isDigit hdigit)

/-- A number of the width that is read is read whole, whatever follows it. -/
theorem readNumber_padded (positive : 0 < width) (fits : n < tenTo width) :
    readNumber width (padded width n ++ rest) = some (n, rest) := by
  have hlength := length_padded positive fits
  have htake : (padded width n ++ rest).take width = padded width n :=
    List.take_left' hlength
  have hdrop : (padded width n ++ rest).drop width = rest := List.drop_left' hlength
  have hdigits : (padded width n ++ []).takeWhile isDigit = padded width n :=
    takeWhile_digits (fun _ ↦ isDigit_of_mem_padded) (by simp [StopsDigits])
  rw [List.append_nil] at hdigits
  rw [readNumber, trimStart_padded]
  simp only [htake, hdigits, hlength, hdrop, digitsValue_padded]
  rw [if_neg (by simpa using padded_ne_nil)]

/-- A padded number is read back, up to where the digits stop. -/
theorem readLong_padded (fits : n < twoTo 63) (stops : StopsDigits rest) :
    readLong (padded width n ++ rest) = some (n, rest) := by
  have htake : (padded width n ++ rest).takeWhile isDigit = padded width n :=
    takeWhile_digits (fun _ ↦ isDigit_of_mem_padded) stops
  rw [readLong]
  simp only [htake, digitsValue_padded, List.drop_left]
  rw [if_neg (by simpa [padded_ne_nil] using fits)]

/-- A mark is met at once. -/
theorem expect_cons {mark : Char} (h : Text.isBlank mark = false) :
    expect mark (mark :: rest) = some rest := by
  simp [expect, trimStart_cons h]

/-- What starts with a digit is read as a number. -/
theorem readYear_of_isDigit {c : Char} {cs : List Char} (h : isDigit c = true)
    (number : readNumber 4 (c :: cs) = some (n, rest)) :
    readYear (c :: cs) = some ((n : Int), rest) := by
  rw [readYear, trimStart_cons (isBlank_of_isDigit h)]
  split
  · rename_i heq
    obtain rfl := (List.cons.inj heq).1
    simp [isDigit] at h
  · rename_i heq
    obtain rfl := (List.cons.inj heq).1
    simp [isDigit] at h
  · rw [number]
    rfl

/-- A year is read whole before the mark that follows it. -/
theorem readYear_yearText {year : Int} (fits : year.natAbs < twoTo 63) (rest : List Char) :
    readYear (yearText year ++ '-' :: rest) = some (year, '-' :: rest) := by
  have stops : StopsDigits ('-' :: rest) := by simp [StopsDigits, Json.isDigit]
  have hlong : readLong (padded 4 year.natAbs ++ '-' :: rest) = some (year.natAbs, '-' :: rest) :=
    readLong_padded fits stops
  unfold yearText
  split
  · rename_i hshort
    have hread : readNumber 4 (padded 4 year.toNat ++ '-' :: rest) =
        some (year.toNat, '-' :: rest) :=
      readNumber_padded (by decide) (show year.toNat < 10000 by omega)
    obtain ⟨c, cs, hcons, hdigit⟩ := padded_eq_cons 4 year.toNat
    rw [hcons, List.cons_append] at hread ⊢
    rw [readYear_of_isDigit hdigit hread, Int.toNat_of_nonneg hshort.1]
  · split
    · rename_i hnegative
      have hyear : -(year.natAbs : Int) = year := by omega
      change (readLong (padded 4 year.natAbs ++ '-' :: rest)).map _ = _
      rw [hlong]
      exact congrArg (fun y ↦ some (y, '-' :: rest)) hyear
    · rename_i hpositive
      have hyear : (year.natAbs : Int) = year := by omega
      change (readLong (padded 4 year.natAbs ++ '-' :: rest)).map _ = _
      rw [hlong]
      exact congrArg (fun y ↦ some (y, '-' :: rest)) hyear

/-- A fraction of three, six or nine digits. -/
theorem readFraction_padded (fits : n < tenTo width) (positive : 0 < width) (short : width ≤ 9) :
    readFraction ('.' :: padded width n ++ ['Z']) = some (n * tenTo (9 - width), ['Z']) := by
  have stops : StopsDigits ['Z'] := by simp [StopsDigits, Json.isDigit]
  have htake : (padded width n ++ ['Z']).takeWhile isDigit = padded width n :=
    takeWhile_digits (fun _ ↦ isDigit_of_mem_padded) stops
  have hlength := length_padded positive fits
  have hkept : (padded width n).take 9 = padded width n :=
    List.take_of_length_le (Nat.le_trans (Nat.le_of_eq hlength) short)
  rw [List.cons_append, readFraction]
  simp only [htake, hkept, digitsValue_padded, hlength]
  rw [if_neg (by simpa using padded_ne_nil), List.drop_left' hlength]

/-- A fraction is read back, whether it is written with three, six or nine digits or not at all. -/
theorem readFraction_fractionText (h : n < nanosecondsPerSecond) :
    readFraction (fractionText n ++ ['Z']) = some (n, ['Z']) := by
  have hthree : tenTo 3 = 1000 := rfl
  have hsix : tenTo 6 = 1000000 := rfl
  have hnine : nanosecondsPerSecond = 1000 * 1000000 := rfl
  unfold fractionText
  split
  · rename_i hzero
    rw [hzero]
    rfl
  split
  · rename_i hmillis
    rw [readFraction_padded (by omega) (by decide) (by decide),
      show n / 1000000 * tenTo 6 = n by rw [hsix]; omega]
  split
  · rename_i hmicros
    rw [readFraction_padded (by omega) (by decide) (by decide),
      show n / 1000 * tenTo 3 = n by rw [hthree]; omega]
  · rw [readFraction_padded h (by decide) (by decide), show n * tenTo 0 = n from Nat.mul_one n]

theorem chars_eq (t : Time) :
    t.chars = yearText t.year ++ '-' :: (padded 2 t.month ++ '-' :: (padded 2 t.day ++ 'T' ::
      (padded 2 t.hour ++ ':' :: (padded 2 t.minute ++ ':' :: (padded 2 t.second ++
        (fractionText t.nanosecond ++ ['Z'])))))) := by
  simp only [chars, List.append_assoc, List.cons_append]

theorem readOffset_utc : readOffset ['Z'] = some (0, []) := rfl

/-- A valid time is read back from its characters. -/
theorem ofChars?_chars {t : Time} (h : t.isValid = true) : ofChars? t.chars = some t := by
  have hvalid := h
  simp only [isValid, inRange, Bool.and_eq_true, decide_eq_true_eq] at h
  obtain ⟨⟨⟨⟨⟨⟨⟨⟨⟨hlow, hhigh⟩, -⟩, hmonth⟩, -⟩, hday⟩, hhour⟩, hminute⟩, hsecond⟩, hnano⟩ := h
  have hdays : daysInMonth t.year t.month ≤ 31 := by
    unfold daysInMonth
    repeat' split
    all_goals decide
  have hyear : t.year.natAbs < twoTo 63 :=
    Nat.lt_of_lt_of_le (show t.year.natAbs < 300000 by omega) (by decide)
  have hpair : ∀ {n : Nat} {rest : List Char}, n < 100 →
      readNumber 2 (padded 2 n ++ rest) = some (n, rest) :=
    fun fits ↦ readNumber_padded (by decide) fits
  have hminus : ∀ rest, expect '-' ('-' :: rest) = some rest := fun _ ↦ expect_cons (by decide)
  have hcolon : ∀ rest, expect ':' (':' :: rest) = some rest := fun _ ↦ expect_cons (by decide)
  have hutc : Text.trimStart ['Z'] = ['Z'] := rfl
  have hend : (Text.trimStart []).isEmpty = true := rfl
  simp only [ofChars?, chars_eq, readYear_yearText hyear, hminus, hcolon, bind, Option.bind,
    hpair (show t.month < 100 by omega), hpair (show t.day < 100 by omega),
    hpair (show t.hour < 100 by omega), hpair (show t.minute < 100 by omega),
    hpair (show t.second < 100 by omega), readFraction_fractionText hnano, hutc, readOffset_utc,
    hend, hvalid]
  rfl

/-- A valid time comes back from its text. -/
theorem ofText?_text {t : Time} (h : t.isValid = true) : ofText? t.text = some t := by
  rw [ofText?, text, String.toList_ofList, ofChars?_chars h]

end Moderation.Time
