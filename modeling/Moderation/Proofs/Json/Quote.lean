import Mathlib.Tactic.Common
import Moderation.Json.Printer
import Moderation.Json.Reader

/-!
# Quoted texts

A quoted text is read as the text that was quoted, whatever follows it. Every character is written
as one unit: itself, or a control character by its number.
-/

namespace Moderation.Json

/-- The unit that a character is read as once it was written. -/
def unitOf (c : Char) : TextUnit :=
  if c.toNat < 0x20 ∧ c ∉ ['\x08', '\x0c', '\n', '\r', '\t'] then .code c.toNat else .char c

theorem hexUnit?_hexDigits :
    ∀ n < 0x20, hexUnit? '0' '0' (hexDigit (n / 16)) (hexDigit (n % 16)) = some n := by
  decide

/-- One unit more in front of what is read. -/
def withUnit (unit : TextUnit) : List TextUnit × List Char → List TextUnit × List Char
  | (units, rest) => (unit :: units, rest)

theorem readUnits_plain {c : Char} (quote : c ≠ '"') (backslash : c ≠ '\\')
    (control : ¬ c.toNat < 0x20) (rest : List Char) :
    readUnits (c :: rest) = (readUnits rest).map (withUnit (.char c)) := by
  rw [readUnits.eq_def]
  split
  · simp_all
  · simp_all
  · simp_all
  · simp_all
  · rename_i heq
    obtain ⟨rfl, rfl⟩ := List.cons.inj heq
    rw [if_neg control]
    cases readUnits rest <;> rfl

theorem readUnits_short {c escape : Char} (h : simpleEscape? escape = some c) (rest : List Char) :
    readUnits ('\\' :: escape :: rest) = (readUnits rest).map (withUnit (.char c)) := by
  have hu : escape ≠ 'u' := by
    rintro rfl
    simp [simpleEscape?] at h
  rw [readUnits.eq_def]
  split
  · simp_all
  · simp_all
  · simp_all
  · rename_i heq
    obtain ⟨-, htail⟩ := List.cons.inj heq
    obtain ⟨rfl, rfl⟩ := List.cons.inj htail
    rw [h]
    cases readUnits rest <;> rfl
  · rename_i hescape heq
    obtain ⟨rfl, rfl⟩ := List.cons.inj heq
    exact (hescape escape rest rfl rfl).elim

theorem readUnits_code {n : Nat} (h : n < 0x20) (rest : List Char) :
    readUnits ('\\' :: 'u' :: '0' :: '0' :: hexDigit (n / 16) :: hexDigit (n % 16) :: rest) =
      (readUnits rest).map (withUnit (.code n)) := by
  rw [readUnits.eq_def]
  simp only [hexUnit?_hexDigits n h]
  cases readUnits rest <;> rfl

theorem readUnits_escapeChar (c : Char) (rest : List Char) :
    readUnits (escapeChar c ++ rest) = (readUnits rest).map (withUnit (unitOf c)) := by
  unfold escapeChar
  split
  · exact readUnits_short rfl rest
  · exact readUnits_short rfl rest
  · exact readUnits_short rfl rest
  · exact readUnits_short rfl rest
  · exact readUnits_short rfl rest
  · exact readUnits_short rfl rest
  · exact readUnits_short rfl rest
  · rename_i hquote hbackslash hb hf hn hr ht
    split
    · rename_i hcontrol
      have hlong : c ∉ ['\x08', '\x0c', '\n', '\r', '\t'] := by
        simpa using ⟨hb, hf, hn, hr, ht⟩
      have hunit : unitOf c = .code c.toNat := if_pos ⟨hcontrol, hlong⟩
      rw [hunit]
      exact readUnits_code hcontrol rest
    · rename_i hcontrol
      have hunit : unitOf c = .char c := by simp [unitOf, hcontrol]
      rw [hunit]
      exact readUnits_plain hquote hbackslash hcontrol rest

theorem readUnits_escaped (cs rest : List Char) :
    readUnits (cs.flatMap escapeChar ++ '"' :: rest) = some (cs.map unitOf, rest) := by
  induction cs with
  | nil => rfl
  | cons c cs ih =>
    rw [List.flatMap_cons, List.append_assoc, readUnits_escapeChar, ih]
    rfl

/-- An escape that is no surrogate stands for a character of its own. -/
theorem joinUnits_code {n : Nat} (h : n < 0xD800) (units : List TextUnit) :
    joinUnits (.code n :: units) = (joinUnits units).map (Char.ofNat n :: ·) := by
  have hhigh : ¬ (0xD800 ≤ n ∧ n < 0xDC00) := by omega
  have hlow : ¬ (0xDC00 ≤ n ∧ n < 0xE000) := by omega
  have hsurrogate : ¬ (0xD800 ≤ n ∧ n < 0xE000) := by omega
  rcases units with _ | ⟨c | low, units⟩
  · simp [joinUnits, hsurrogate]
  · simp [joinUnits, hsurrogate]
  · simp [joinUnits, hhigh, hlow]

theorem joinUnits_unitOf (cs : List Char) : joinUnits (cs.map unitOf) = some cs := by
  induction cs with
  | nil => rfl
  | cons c cs ih =>
    rw [List.map_cons, unitOf]
    split
    · rename_i hcontrol
      rw [joinUnits_code (Nat.lt_trans hcontrol.1 (by decide)), ih, Char.ofNat_toNat]
      rfl
    · rw [joinUnits, ih]
      rfl

/-- What was quoted is read, up to the closing quote. -/
theorem readText?_escaped (s : String) (rest : List Char) :
    readText? (s.toList.flatMap escapeChar ++ '"' :: rest) = some (some s, rest) := by
  rw [readText?, readUnits_escaped]
  simp [joinUnits_unitOf]

end Moderation.Json
