import Moderation.Proofs.Edit
import Moderation.Proofs.Json.Fields

/-!
# Edits one after another

An edit touches the names that it has entries for, each by its own entry. So two edits come to one
edit with the entries of both: where both have an entry the later one counts, but payloads are put
together. The proof looks at one name at a time, and at the category by itself.
-/

namespace Moderation

/-- What two payloads come to that are given one after the other. The members of two objects are
put together, and what is no object counts for nothing beside one. -/
def Json.payloadOf : Json → Json → Json
  | .object old, .object new => .ofFields ((Fields.ofMembers old).overlay (Fields.ofMembers new))
  | .object old, _ => .object old
  | _, new => new

/-- One edit for two. The second counts where both have an entry, but payloads are put together. -/
def Fields.followedBy (first second : Fields) : Fields :=
  match first["payload"]?, second["payload"]? with
  | some old, some new => (first.overlay second).insert "payload" (old.payloadOf new)
  | _, _ => first.overlay second

/-- The later edit counts, but payloads of both are put together. -/
theorem Fields.getElem?_followedBy (first second : Fields) (name : String) :
    (first.followedBy second)[name]? =
      match first[name]?, second[name]? with
      | some old, some new => some (if name = "payload" then old.payloadOf new else new)
      | old, new => new.or old := by
  by_cases hname : name = "payload"
  · subst name
    unfold followedBy
    cases hfirst : first["payload"]? with
    | none => simp [getElem?_overlay_eq, hfirst]
    | some old => cases hsecond : second["payload"]? with
      | none => simp [getElem?_overlay_eq, hfirst, hsecond]
      | some new => simp
  · have hoverlay : (first.followedBy second)[name]? = second[name]?.or first[name]? := by
      rw [← getElem?_overlay_eq]
      unfold followedBy
      split
      · exact Std.ExtTreeMap.getElem?_insert.trans (if_neg (by simpa using Ne.symm hname))
      · rfl
    rw [hoverlay]
    cases first[name]? <;> cases second[name]? <;> simp [hname]

namespace Reviewable

variable {r : Reviewable}

/-- The payload after an edit, given what was stored and what the edit has for it. -/
def payloadAfter (stored : Option Json) : Option Json → Option Json
  | some (.object members) => some (mergePayload stored members)
  | _ => stored

/-- A field after an edit, given what was stored and what the edit has under its name. An entry for
the category goes to no field. -/
def fieldAfter (name : String) (stored entry : Option Json) : Option Json :=
  if name = "category_id" then stored
  else if name = "payload" then payloadAfter stored entry
  else entry.or stored

/-- The category after an edit, given what the edit has under its name. -/
def categoryAfter (stored : Option UInt64) (entry : Option Json) : Option UInt64 :=
  entry.elim stored Json.asUInt64?

theorem fieldAfter_none (name : String) (stored : Option Json) :
    fieldAfter name stored none = stored := by
  unfold fieldAfter
  split
  · rfl
  · split
    · rfl
    · exact Option.none_or

/-- One entry of an edit changes one field, or none. -/
theorem getElem?_fields_applyUpdate (r : Reviewable) (target : String) (value : Json)
    (name : String) :
    (r.applyUpdate target value).fields[name]? =
      if target = name then fieldAfter name r.fields[name]? (some value) else r.fields[name]? := by
  have hinsert (new : Json) : (r.fields.insert target new)[name]? =
      if target = name then some new else r.fields[name]? := by
    simp [Std.ExtTreeMap.getElem?_insert]
  unfold applyUpdate fieldAfter
  by_cases hcategory : target = "category_id"
  · by_cases hname : target = name <;> simp_all
  · by_cases hpayload : target = "payload"
    · cases value <;> by_cases hname : target = name <;> simp_all [payloadAfter]
    · by_cases hname : target = name <;> simp_all

theorem category_applyUpdate (r : Reviewable) (target : String) (value : Json) :
    (r.applyUpdate target value).category =
      if target = "category_id" then value.asUInt64? else r.category := by
  unfold applyUpdate
  split
  · rfl
  · split
    · split <;> rfl
    · rfl

/-- What is seen of a reviewable and changed by entries for one name alone is decided by the entry
for that name. -/
theorem view_applyUpdates {α : Type} (view : Reviewable → α) (after : α → Option Json → α)
    {name : String} (kept : ∀ a, after a none = a)
    (own : ∀ r value, view (r.applyUpdate name value) = after (view r) (some value))
    (other : ∀ r target value, target ≠ name → view (r.applyUpdate target value) = view r)
    (r : Reviewable) (updates : Fields) :
    view (r.applyUpdates updates) = after (view r) updates[name]? := by
  rw [← Fields.lookup_members, applyUpdates]
  have hdistinct := updates.areDistinct_members
  generalize updates.members = entries at hdistinct
  induction entries generalizing r with
  | nil => exact (kept (view r)).symm
  | cons entry rest ih =>
    obtain ⟨target, value⟩ := entry
    obtain ⟨hfresh, hrest⟩ := List.nodup_cons.mp hdistinct
    rw [List.foldl_cons, ih _ hrest, List.lookup_cons]
    by_cases hname : target = name
    · subst target
      -- No later entry has the name again.
      rw [Table.lookup_eq_none hfresh, kept, own, beq_self_eq_true]
    · rw [beq_eq_false_iff_ne.mpr (Ne.symm hname), other r target value hname]

/-- Only the entry for the category decides the category. -/
theorem category_applyUpdates (r : Reviewable) (updates : Fields) :
    (r.applyUpdates updates).category = categoryAfter r.category updates["category_id"]? := by
  apply view_applyUpdates (·.category) categoryAfter (fun _ ↦ rfl)
  · intro r value
    exact (r.category_applyUpdate "category_id" value).trans (if_pos rfl)
  · intro r target value hname
    exact (r.category_applyUpdate target value).trans (if_neg hname)

/-- A field after an edit depends on the field and on its own entry. -/
theorem getElem?_fields_applyUpdates (r : Reviewable) (updates : Fields) (name : String) :
    (r.applyUpdates updates).fields[name]? = fieldAfter name r.fields[name]? updates[name]? := by
  apply view_applyUpdates (fun r ↦ r.fields[name]?) (fieldAfter name) (fieldAfter_none name)
  · intro r value
    exact (r.getElem?_fields_applyUpdate name value name).trans (if_pos rfl)
  · intro r target value hname
    exact (r.getElem?_fields_applyUpdate target value name).trans (if_neg hname)

/-- Edits make the same of a reviewable if they make the same of its category and of every field. -/
theorem eq_of_frame {s t : Reviewable}
    (hs : ∃ category fields, s = { r with category, fields })
    (ht : ∃ category fields, t = { r with category, fields }) (category : s.category = t.category)
    (fields : ∀ name : String, s.fields[name]? = t.fields[name]?) : s = t := by
  obtain ⟨_, fieldsOfS, rfl⟩ := hs
  obtain ⟨_, fieldsOfT, rfl⟩ := ht
  have hfields : fieldsOfS = fieldsOfT := Std.ExtTreeMap.ext_getElem? fields
  cases category
  rw [hfields]

/-- The fields that a payload is merged into: those of an object, and none of anything else. -/
def payloadFields : Option Json → Fields
  | some (.object old) => Fields.ofMembers old
  | _ => ∅

theorem mergePayload_eq (stored : Option Json) (members : List (String × Json)) :
    mergePayload stored members =
      .ofFields ((payloadFields stored).overlay (Fields.ofMembers members)) := by
  have hnone : Json.ofFields (Fields.ofMembers members) =
      .ofFields ((∅ : Fields).overlay (Fields.ofMembers members)) := by
    rw [Fields.empty_overlay]
  cases stored with
  | none => exact hnone
  | some old => cases old with
    | object old => rfl
    | null | bool | number | string | array => exact hnone

/-- A merged payload has the new fields over the old ones. -/
theorem payloadFields_mergePayload (stored : Option Json) (members : List (String × Json)) :
    payloadFields (some (mergePayload stored members)) =
      (payloadFields stored).overlay (Fields.ofMembers members) := by
  rw [mergePayload_eq]
  exact Fields.ofMembers_members _

/-- To merge one payload after another is to merge what they are together. -/
theorem mergePayload_mergePayload (stored : Option Json) (first second : List (String × Json)) :
    mergePayload (some (mergePayload stored first)) second =
      mergePayload stored
        ((Fields.ofMembers first).overlay (Fields.ofMembers second)).members := by
  let below := payloadFields stored
  calc
    _ = .ofFields ((below.overlay (Fields.ofMembers first)).overlay (Fields.ofMembers second)) := by
      rw [mergePayload_eq, payloadFields_mergePayload]
    _ = .ofFields (below.overlay ((Fields.ofMembers first).overlay (Fields.ofMembers second))) := by
      rw [Fields.overlay_assoc]
    _ = _ := by rw [mergePayload_eq, Fields.ofMembers_members]

/-- Two payloads, one after another, are merged as one. -/
theorem payloadAfter_payloadAfter (stored : Option Json) (old new : Json) :
    payloadAfter (payloadAfter stored (some old)) (some new) =
      payloadAfter stored (some (old.payloadOf new)) := by
  cases old with
  | object first => cases new with
    | object second => exact congrArg some (mergePayload_mergePayload stored first second)
    | null | bool | number | string | array => rfl
  | null | bool | number | string | array => rfl

theorem payloadAfter_self (stored entry : Option Json) :
    payloadAfter (payloadAfter stored entry) entry = payloadAfter stored entry := by
  cases entry with
  | none => rfl
  | some value => cases value with
    | object members =>
      have htwice : mergePayload (some (mergePayload stored members)) members =
          mergePayload stored members := by
        rw [mergePayload_mergePayload, Fields.overlay_self, mergePayload_eq,
          Fields.ofMembers_members, ← mergePayload_eq]
      exact congrArg some htwice
    | null | bool | number | string | array => rfl

theorem fieldAfter_fieldAfter (name : String) (stored : Option Json) (first second : Fields) :
    fieldAfter name (fieldAfter name stored first[name]?) second[name]? =
      fieldAfter name stored (first.followedBy second)[name]? := by
  rw [Fields.getElem?_followedBy]
  cases first[name]? with
  | none => simp [fieldAfter_none]
  | some old => cases second[name]? with
    | none => simp [fieldAfter_none]
    | some new =>
      by_cases hpayload : name = "payload"
      · subst name
        exact payloadAfter_payloadAfter stored old new
      · simp only [fieldAfter, hpayload, if_false]
        split <;> rfl

theorem categoryAfter_categoryAfter (stored : Option UInt64) (first second : Fields) :
    categoryAfter (categoryAfter stored first["category_id"]?) second["category_id"]? =
      categoryAfter stored (first.followedBy second)["category_id"]? := by
  rw [Fields.getElem?_followedBy]
  cases first["category_id"]? <;> cases second["category_id"]? <;> rfl

theorem fieldAfter_self (name : String) (stored entry : Option Json) :
    fieldAfter name (fieldAfter name stored entry) entry = fieldAfter name stored entry := by
  unfold fieldAfter
  split
  · rfl
  · split
    · exact payloadAfter_self stored entry
    · rw [← Option.or_assoc, Option.or_self]

theorem applyUpdates_frame_twice (r : Reviewable) (first second : Fields) :
    ∃ category fields, (r.applyUpdates first).applyUpdates second = { r with category, fields } := by
  obtain ⟨_, _, hfirst⟩ := r.applyUpdates_frame first
  obtain ⟨category, fields, hsecond⟩ := (r.applyUpdates first).applyUpdates_frame second
  exact ⟨category, fields, by rw [hsecond, hfirst]⟩

/-- Two edits, one after another, come to one. -/
theorem applyUpdates_applyUpdates (r : Reviewable) (first second : Fields) :
    (r.applyUpdates first).applyUpdates second = r.applyUpdates (first.followedBy second) := by
  apply eq_of_frame (r.applyUpdates_frame_twice first second) (r.applyUpdates_frame _)
  · simp only [category_applyUpdates, categoryAfter_categoryAfter]
  · intro name
    simp only [getElem?_fields_applyUpdates, fieldAfter_fieldAfter]

/-- An edit that is made again changes nothing. -/
theorem applyUpdates_self (r : Reviewable) (updates : Fields) :
    (r.applyUpdates updates).applyUpdates updates = r.applyUpdates updates := by
  apply eq_of_frame (r.applyUpdates_frame_twice updates updates) (r.applyUpdates_frame _)
  · simp only [category_applyUpdates]
    cases updates["category_id"]? <;> rfl
  · intro name
    simp only [getElem?_fields_applyUpdates, fieldAfter_self]

/-- The version has no part in an edit. -/
theorem applyUpdates_withVersion (r : Reviewable) (version : UInt64) (updates : Fields) :
    { r with version }.applyUpdates updates = { r.applyUpdates updates with version } := by
  have hframe : ∃ category fields,
      { r.applyUpdates updates with version } = { { r with version } with category, fields } := by
    obtain ⟨category, fields, h⟩ := r.applyUpdates_frame updates
    exact ⟨category, fields, by rw [h]⟩
  apply eq_of_frame (applyUpdates_frame _ updates) hframe
  · simp only [category_applyUpdates]
  · intro name
    simp only [getElem?_fields_applyUpdates]

end Reviewable

end Moderation
