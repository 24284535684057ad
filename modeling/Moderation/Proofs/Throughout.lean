import Mathlib.Data.List.Induction

/-!
# What holds throughout a run

A condition that each step keeps unless it breaks it in a known way holds throughout a run exactly
when no step of the run breaks it.
-/

namespace Moderation

theorem throughout_iff {σ α : Type} (step : σ → α → σ) (holds : σ → Prop) (breaks : σ → α → Prop)
    (h : ∀ s a, holds s → (holds (step s a) ↔ ¬ breaks s a)) {s : σ} (start : holds s)
    (steps : List α) :
    (∀ before, before <+: steps → holds (before.foldl step s)) ↔
      ∀ before a, before ++ [a] <+: steps → ¬ breaks (before.foldl step s) a := by
  constructor
  · intro hholds before a hprefix
    have hbefore := hholds before ((List.prefix_append before [a]).trans hprefix)
    have hafter := hholds (before ++ [a]) hprefix
    rw [List.foldl_append] at hafter
    exact (h _ a hbefore).mp hafter
  · intro hnever before hprefix
    induction before using List.reverseRecOn with
    | nil => exact start
    | append_singleton before a ih =>
      have hbefore := ih ((List.prefix_append before [a]).trans hprefix)
      rw [List.foldl_append]
      exact (h _ a hbefore).mpr (hnever before a hprefix)

end Moderation
