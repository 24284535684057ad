import Mathlib.Data.List.DropRight
import Moderation.Text.Blank

/-!
# Trimmed texts

Trimming leaves nothing of a blank text, and all of a text without a blank at an end.
-/

namespace Moderation.Text

variable {cs : List Char}

theorem trimEnd_eq (cs : List Char) : trimEnd cs = cs.rdropWhile isBlank := rfl

theorem trim_eq_nil_iff : trim cs = [] ↔ ∀ c ∈ cs, isBlank c = true := by
  rw [trim, trimEnd_eq, List.rdropWhile_eq_nil_iff]
  constructor
  · intro h c hc
    rw [← List.takeWhile_append_dropWhile (p := isBlank) (l := cs)] at hc
    rcases List.mem_append.mp hc with hfirst | hrest
    · exact List.mem_takeWhile_imp hfirst
    · exact h c hrest
  · exact fun h c hc ↦ h c ((List.dropWhile_suffix _).subset hc)

theorem trimStart_eq_self_iff : trimStart cs = cs ↔ ∀ c ∈ cs.head?, isBlank c = false := by
  cases cs with
  | nil => simp [trimStart]
  | cons c rest => simp [trimStart, List.dropWhile_eq_self_iff]

theorem trimEnd_eq_self_iff : trimEnd cs = cs ↔ ∀ c ∈ cs.getLast?, isBlank c = false := by
  have hreverse : trimEnd cs = cs ↔ trimStart cs.reverse = cs.reverse := List.reverse_eq_iff
  rw [hreverse, trimStart_eq_self_iff, List.head?_reverse]

/-- Just the texts without a blank at an end are kept. -/
theorem trim_eq_self_iff : trim cs = cs ↔
    (∀ c ∈ cs.head?, isBlank c = false) ∧ ∀ c ∈ cs.getLast?, isBlank c = false := by
  rw [← trimStart_eq_self_iff, ← trimEnd_eq_self_iff]
  constructor
  · intro h
    have hkept : trimEnd (trimStart cs) <+: trimStart cs := List.rdropWhile_prefix isBlank _
    have hstart : trimStart cs = cs := by
      apply (List.dropWhile_suffix isBlank).eq_of_length_le
      calc cs.length = (trim cs).length := by rw [h]
        _ ≤ (trimStart cs).length := hkept.length_le
    exact ⟨hstart, by rwa [trim, hstart] at h⟩
  · rintro ⟨hstart, hend⟩
    rw [trim, hstart, hend]

theorem trim_eq_self (h : ∀ c ∈ cs, isBlank c = false) : trim cs = cs :=
  trim_eq_self_iff.mpr ⟨fun c hc ↦ h c (List.mem_of_head? hc),
    fun c hc ↦ h c (List.mem_of_getLast? hc)⟩

end Moderation.Text
