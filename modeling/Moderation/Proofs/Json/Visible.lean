import Moderation.Proofs.Json.Numeral

/-!
# The text of a value has one line

No control character stands in the compact text of a value: within quotes they are written as
escapes, and nothing else has any.
-/

namespace Moderation

/-- No control character stands in a text. -/
def AreVisible (cs : List Char) : Prop := ∀ c ∈ cs, 0x20 ≤ c.toNat

namespace AreVisible

instance : DecidablePred AreVisible := List.decidableBAll fun c : Char ↦ 0x20 ≤ c.toNat

variable {c : Char} {cs ds : List Char}

theorem nil : AreVisible [] := nofun

theorem cons (hc : 0x20 ≤ c.toNat) (hcs : AreVisible cs) : AreVisible (c :: cs) :=
  List.forall_mem_cons.mpr ⟨hc, hcs⟩

theorem append (hcs : AreVisible cs) (hds : AreVisible ds) : AreVisible (cs ++ ds) :=
  List.forall_mem_append.mpr ⟨hcs, hds⟩

theorem of_digits (h : ∀ c ∈ cs, Json.isDigit c = true) : AreVisible cs := by
  intro c hc
  have hdigit := h c hc
  simp only [Json.isDigit, Bool.and_eq_true, decide_eq_true_eq] at hdigit
  have hzero : '0'.toNat ≤ c.toNat := hdigit.1
  exact Nat.le_trans (by decide) hzero

/-- Visible characters do not end a line. -/
theorem ne_lineEnd (h : AreVisible cs) (hc : c ∈ cs) : c ≠ '\n' ∧ c ≠ '\r' := by
  have hvisible := h c hc
  constructor <;> rintro rfl <;> exact absurd hvisible (by decide)

end AreVisible

open AreVisible

namespace Numeral

theorem areVisible_chars {n : Numeral} (h : n.WellFormed) : AreVisible n.chars := by
  have hfraction : AreVisible (fractionChars n.fraction) := by
    cases hn : n.fraction with
    | none => exact nil
    | some digits => exact cons (by decide) (of_digits (h.fraction digits hn).digits)
  have hexponent : AreVisible (exponentChars n.exponent) := by
    cases hn : n.exponent with
    | none => exact nil
    | some exponent =>
      obtain ⟨below, digits⟩ := exponent
      have hdigits := of_digits (h.exponent below digits hn).digits
      cases below <;> exact cons (by decide) (cons (by decide) hdigits)
  have hunsigned : AreVisible n.unsignedChars :=
    (of_digits h.whole.digits).append (hfraction.append hexponent)
  unfold chars
  split
  · exact cons (by decide) hunsigned
  · exact hunsigned

end Numeral

namespace Json

theorem hexDigit_visible : ∀ n < 0x20, 0x20 ≤ (hexDigit n).toNat := by decide

theorem areVisible_escapeChar (c : Char) : AreVisible (escapeChar c) := by
  unfold escapeChar
  split
  · exact cons (by decide) (cons (by decide) nil)
  · exact cons (by decide) (cons (by decide) nil)
  · exact cons (by decide) (cons (by decide) nil)
  · exact cons (by decide) (cons (by decide) nil)
  · exact cons (by decide) (cons (by decide) nil)
  · exact cons (by decide) (cons (by decide) nil)
  · exact cons (by decide) (cons (by decide) nil)
  · split
    · rename_i hcontrol
      have hhigh := hexDigit_visible (c.toNat / 16) (by omega)
      have hlow := hexDigit_visible (c.toNat % 16) (by omega)
      exact cons (by decide) (cons (by decide) (cons (by decide) (cons (by decide)
        (cons hhigh (cons hlow nil)))))
    · rename_i hvisible
      exact cons (Nat.le_of_not_lt hvisible) nil

/-- A quoted text has its line ends escaped. -/
theorem areVisible_quote (s : String) : AreVisible (quote s) := by
  have hescaped : AreVisible (s.toList.flatMap escapeChar) := by
    intro c hc
    obtain ⟨d, -, hd⟩ := List.mem_flatMap.mp hc
    exact areVisible_escapeChar d c hd
  exact cons (by decide) (hescaped.append (cons (by decide) nil))

mutual

/-- The compact text of a value has no control characters. -/
theorem areVisible_print : ∀ value : Json, AreVisible value.print
  | null => by rw [print]; decide
  | bool true => by rw [print]; decide
  | bool false => by rw [print]; decide
  | number n => by
    rw [print, n.text_eq]
    exact n.numeral.areVisible_chars n.numeral_wellFormed
  | string s => by
    rw [print]
    exact areVisible_quote s
  | array items => by
    rw [print]
    exact cons (by decide) (areVisible_printItems items)
  | object members => by
    rw [print]
    exact cons (by decide) (areVisible_printMembers members)

theorem areVisible_printItems : ∀ items : List Json, AreVisible (printItems items)
  | [] => cons (by decide) nil
  | [item] => by
    rw [printItems]
    exact (areVisible_print item).append (cons (by decide) nil)
  | item :: next :: rest => by
    rw [printItems]
    · exact (areVisible_print item).append (cons (by decide) (areVisible_printItems (next :: rest)))
    · nofun

theorem areVisible_printMembers : ∀ members : List (String × Json),
    AreVisible (printMembers members)
  | [] => cons (by decide) nil
  | [(name, value)] => by
    rw [printMembers]
    exact (areVisible_quote name).append
      (cons (by decide) ((areVisible_print value).append (cons (by decide) nil)))
  | (name, value) :: next :: rest => by
    rw [printMembers]
    · exact (areVisible_quote name).append (cons (by decide)
        ((areVisible_print value).append
          (cons (by decide) (areVisible_printMembers (next :: rest)))))
    · nofun

end

/-- So no value is printed with a line end in it. -/
theorem areVisible_text (value : Json) : AreVisible value.text.toList := by
  rw [text, String.toList_ofList]
  exact value.areVisible_print

end Json

end Moderation
