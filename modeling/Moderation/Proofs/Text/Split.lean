import Mathlib.Tactic.Common
import Moderation.Text.Split

/-!
# Texts put together and split

A part without the mark comes back from before the first mark, and a text without the mark is its
only part. A text with nothing to drop at its end stays as it is.
-/

namespace Moderation.Text

variable {mark : Char} {cs rest : List Char}

/-- A text without the mark goes to the first part of what follows it. -/
theorem splitOn_append_left (h : mark ∉ cs) {part : List Char} {parts : List (List Char)}
    (split : splitOn mark rest = part :: parts) :
    splitOn mark (cs ++ rest) = (cs ++ part) :: parts := by
  induction cs with
  | nil => exact split
  | cons c cs ih =>
    obtain ⟨hne, hcs⟩ := not_or.mp (mt List.mem_cons.mpr h)
    rw [List.cons_append, splitOn, if_neg (Ne.symm hne), ih hcs]
    rfl

theorem splitOn_of_not_mem (h : mark ∉ cs) : splitOn mark cs = [cs] := by
  have hnil : splitOn mark [] = [[]] := rfl
  simpa only [List.append_nil] using splitOn_append_left h hnil

theorem splitOn_append (h : mark ∉ cs) (rest : List Char) :
    splitOn mark (cs ++ mark :: rest) = cs :: splitOn mark rest := by
  have hmark : splitOn mark (mark :: rest) = [] :: splitOn mark rest := if_pos rfl
  rw [splitOn_append_left h hmark, List.append_nil]

/-- The parts of a text that is put together of them, each behind a mark but the first. -/
theorem splitOn_parts {part : List Char} {parts : List (List Char)} (h : mark ∉ part)
    (hparts : ∀ part ∈ parts, mark ∉ part) :
    splitOn mark (part ++ parts.flatMap (mark :: ·)) = part :: parts := by
  induction parts generalizing part with
  | nil => rw [List.flatMap_nil, List.append_nil, splitOn_of_not_mem h]
  | cons next parts ih =>
    obtain ⟨hnext, hrest⟩ := List.forall_mem_cons.mp hparts
    rw [List.flatMap_cons, List.cons_append, splitOn_append h, ih hnext hrest]

theorem intercalate_cons (part : List Char) (parts : List (List Char)) :
    List.intercalate [mark] (part :: parts) = part ++ parts.flatMap (mark :: ·) := by
  induction parts generalizing part with
  | nil => simp
  | cons next parts ih =>
    rw [List.intercalate_cons_cons, ih, List.flatMap_cons, List.append_assoc]
    rfl

theorem splitOn_intercalate {parts : List (List Char)} (hne : parts ≠ [])
    (h : ∀ part ∈ parts, mark ∉ part) :
    splitOn mark (List.intercalate [mark] parts) = parts := by
  obtain ⟨part, rest, rfl⟩ := List.exists_cons_of_ne_nil hne
  obtain ⟨hpart, hrest⟩ := List.forall_mem_cons.mp h
  rw [intercalate_cons, splitOn_parts hpart hrest]

theorem cut_of_not_mem (h : mark ∉ cs) : cut mark cs = (cs, none) := by
  induction cs with
  | nil => rfl
  | cons c cs ih =>
    obtain ⟨hne, hcs⟩ := not_or.mp (mt List.mem_cons.mpr h)
    rw [cut, if_neg (Ne.symm hne), ih hcs]

theorem cut_append (h : mark ∉ cs) (rest : List Char) :
    cut mark (cs ++ mark :: rest) = (cs, some rest) := by
  induction cs with
  | nil => exact if_pos rfl
  | cons c cs ih =>
    obtain ⟨hne, hcs⟩ := not_or.mp (mt List.mem_cons.mpr h)
    rw [List.cons_append, cut, if_neg (Ne.symm hne), ih hcs]

theorem dropEnd_eq_self {p : Char → Bool} (h : ∀ c ∈ cs, p c = false) :
    (cs.reverse.dropWhile p).reverse = cs := by
  rcases cs.eq_nil_or_concat with rfl | ⟨before, c, rfl⟩
  · rfl
  · have hc : p c = false := h c (by simp)
    simp [hc]

end Moderation.Text
