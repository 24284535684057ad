import Moderation.Payload
import Moderation.Proofs.Json.Fields

/-!
# What a payload holds

A payload is put together in layers, and under each name the uppermost layer that has something
counts: the registered fields with true values, what was entered, and the attributes that are set.
-/

namespace Moderation

namespace Payload

variable {r : Reviewable} {entered payload : Fields} {registered : List String} {name : String}

/-- The attribute of a name, of those that are sent when they are set. -/
def attribute? (r : Reviewable) (name : String) : Option Json :=
  if name = "send_email" then r.sendEmail.map .bool
  else if name = "reject_reason" then r.rejectReason.map .string
  else none

/-- The value of a registered field, if it is true. -/
def registered? (r : Reviewable) (registered : List String) (name : String) : Option Json :=
  if name ∈ registered then (r.field? name).filter Json.isTruthy else none

theorem registered?_eq_none (falsy : ∀ value, r.field? name = some value → value.isTruthy = false) :
    registered? r registered name = none := by
  unfold registered?
  split
  · exact Option.filter_eq_none_iff.mpr fun value hvalue ↦ by simp [falsy value hvalue]
  · rfl

theorem registered?_isSome_iff :
    (registered? r registered name).isSome = true ↔
      name ∈ registered ∧ ∃ value, r.field? name = some value ∧ value.isTruthy = true := by
  unfold registered?
  split
  next hname => simp [hname, Option.isSome_iff_exists, Option.filter_eq_some_iff,
    -Option.isSome_filter]
  next hname => simp [hname]

theorem attribute?_isSome_iff :
    (attribute? r name).isSome = true ↔
      (name = "send_email" ∧ r.sendEmail.isSome = true) ∨
        (name = "reject_reason" ∧ r.rejectReason.isSome = true) := by
  unfold attribute?
  by_cases hemail : name = "send_email"
  · simp [hemail]
  · by_cases hreason : name = "reject_reason"
    · simp [hreason]
    · simp [hemail, hreason]

theorem getElem?_attributes (r : Reviewable) (name : String) :
    (attributes r)[name]? = attribute? r name := by
  have hnames : "reject_reason" ≠ "send_email" := by decide
  unfold attributes attribute?
  by_cases hemail : name = "send_email"
  · subst name
    cases r.sendEmail <;> cases r.rejectReason <;>
      simp only [Std.ExtTreeMap.getElem?_insert] <;> simp [hnames]
  · by_cases hreason : name = "reject_reason"
    · subst name
      cases r.sendEmail <;> cases r.rejectReason <;>
        simp only [Std.ExtTreeMap.getElem?_insert] <;> simp [hnames]
    · cases r.sendEmail <;> cases r.rejectReason <;>
        simp only [Std.ExtTreeMap.getElem?_insert] <;>
          simp [hemail, hreason, Ne.symm hemail, Ne.symm hreason]

/-- A registered field hides what lies below it. -/
theorem getElem?_addField (r : Reviewable) (payload : Fields) (own name : String) :
    (addField r payload own)[name]? = (registered? r [own] name).or payload[name]? := by
  unfold addField registered?
  by_cases hname : name = own
  · subst own
    cases (r.field? name).filter Json.isTruthy <;> simp
  · cases (r.field? own).filter Json.isTruthy <;>
      simp [hname, Std.ExtTreeMap.getElem?_insert, Ne.symm hname]

/-- However often and in whatever order the names are registered. -/
theorem getElem?_addFields (r : Reviewable) (payload : Fields) (registered : List String)
    (name : String) :
    (registered.foldl (addField r) payload)[name]? =
      (registered? r registered name).or payload[name]? := by
  induction registered generalizing payload with
  | nil => simp [registered?]
  | cons own rest ih =>
    rw [List.foldl_cons, ih, getElem?_addField, ← Option.or_assoc]
    congr 1
    unfold registered?
    by_cases hown : name = own
    · subst own
      by_cases hrest : name ∈ rest <;> simp [hrest, Option.or_self]
    · by_cases hrest : name ∈ rest <;> simp [hrest, hown]

theorem getElem?_build (r : Reviewable) (entered : Fields) (registered : List String)
    (name : String) :
    (build r entered registered)[name]? =
      (registered? r registered name).or (entered[name]?.or (attribute? r name)) := by
  rw [build, getElem?_addFields, Fields.getElem?_overlay_eq, getElem?_attributes]

theorem mem_build_iff :
    name ∈ build r entered registered ↔
      (name ∈ registered ∧ ∃ value, r.field? name = some value ∧ value.isTruthy = true) ∨
        name ∈ entered ∨ (name = "send_email" ∧ r.sendEmail.isSome = true) ∨
        (name = "reject_reason" ∧ r.rejectReason.isSome = true) := by
  rw [Std.ExtTreeMap.mem_iff_isSome_getElem?, Std.ExtTreeMap.mem_iff_isSome_getElem?,
    getElem?_build, Option.isSome_or, Option.isSome_or, Bool.or_eq_true, Bool.or_eq_true,
    registered?_isSome_iff, attribute?_isSome_iff]

end Payload

end Moderation
