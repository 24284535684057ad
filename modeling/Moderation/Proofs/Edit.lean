import Moderation.Reviewable

/-!
# The reach of an edit

Whatever names an edit uses, it touches the category and the free-form fields of a reviewable.
Everything that the queue decides by stays as it is.
-/

namespace Moderation

namespace Reviewable

theorem applyUpdate_frame (r : Reviewable) (name : String) (value : Json) :
    ∃ category fields, r.applyUpdate name value = { r with category, fields } := by
  unfold applyUpdate
  split
  · exact ⟨value.asUInt64?, r.fields, rfl⟩
  · split
    · split
      · exact ⟨r.category, _, rfl⟩
      · exact ⟨r.category, r.fields, rfl⟩
    · exact ⟨r.category, _, rfl⟩

theorem applyUpdates_frame (r : Reviewable) (updates : Fields) :
    ∃ category fields, r.applyUpdates updates = { r with category, fields } := by
  unfold applyUpdates
  generalize updates.members = entries
  induction entries generalizing r with
  | nil => exact ⟨r.category, r.fields, rfl⟩
  | cons entry rest ih =>
    obtain ⟨category, fields, hfirst⟩ := r.applyUpdate_frame entry.1 entry.2
    obtain ⟨category', fields', hrest⟩ := ih (r.applyUpdate entry.1 entry.2)
    refine ⟨category', fields', ?_⟩
    rw [List.foldl_cons, hrest, hfirst]

end Reviewable

end Moderation
