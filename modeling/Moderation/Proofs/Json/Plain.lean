import Moderation.Proofs.Document.Reads

/-!
# Plain values

A value is plain if its numbers are integers of their range, its objects have their members in
order, and it lies no deeper than a number of levels. Plain values come back as they are.
-/

namespace Moderation

theorem Fields.map_eq_self {fields : Fields} {f : Json → Json}
    (h : ∀ (name : String) (value : Json), fields[name]? = some value → f value = value) :
    (fields.map fun _ value ↦ f value) = fields := by
  apply Std.ExtTreeMap.ext_getElem?
  intro name
  rw [Std.ExtTreeMap.getElem?_map]
  cases hget : fields[name]? with
  | none => rfl
  | some value => exact congrArg some (h name value hget)

namespace Json

/-- A value without real numbers in which lists and objects lie no deeper than so many levels. -/
inductive IsPlain : Nat → Json → Prop
  | null {levels : Nat} : IsPlain levels null
  | bool {levels : Nat} (b : Bool) : IsPlain levels (bool b)
  | integer {levels : Nat} {n : Int} (h : Number.InRange n) : IsPlain levels (number (.integer n))
  | string {levels : Nat} (s : String) : IsPlain levels (string s)
  | array {levels : Nat} {items : List Json} (h : ∀ item ∈ items, IsPlain levels item) :
    IsPlain (levels + 1) (array items)
  | object {levels : Nat} {fields : Fields}
    (h : ∀ (name : String) (value : Json), fields[name]? = some value → IsPlain levels value) :
    IsPlain (levels + 1) (ofFields fields)

namespace IsPlain

variable {levels more : Nat} {value : Json}

theorem isLegible (h : value.IsPlain levels) : value.isLegible levels = true := by
  induction h with
  | null | bool | string => rfl
  | integer h => exact isLegible_integer h _
  | array _ ih => exact isLegible_array_iff.mpr ⟨_, rfl, ih⟩
  | object _ ih => exact isLegible_ofFields_iff.mpr ⟨_, rfl, ih⟩

theorem mono (h : value.IsPlain levels) (le : levels ≤ more) : value.IsPlain more := by
  induction h generalizing more with
  | null => exact .null
  | bool b => exact .bool b
  | integer h => exact .integer h
  | string s => exact .string s
  | array _ ih =>
    obtain ⟨least, rfl⟩ := Nat.exists_eq_add_one_of_ne_zero (Nat.ne_zero_of_lt le)
    exact .array fun item hmem ↦ ih item hmem (Nat.le_of_succ_le_succ le)
  | object _ ih =>
    obtain ⟨least, rfl⟩ := Nat.exists_eq_add_one_of_ne_zero (Nat.ne_zero_of_lt le)
    exact .object fun name value hget ↦ ih name value hget (Nat.le_of_succ_le_succ le)

/-- A plain value comes back as it is. -/
theorem reread_eq (h : value.IsPlain levels) : value.reread = value := by
  induction h with
  | null | bool | string => rfl
  | integer h => rw [reread, Number.reread_integer h]
  | array _ ih =>
    rw [reread, rereadItems_eq, List.map_congr_left ih, List.map_id']
  | object _ ih =>
    rw [ofFields, reread, rereadMembers_eq, Fields.ofMembers_map, Fields.ofMembers_members,
      Fields.map_eq_self ih]
    rfl

theorem normalize_eq (h : value.IsPlain levels) : value.normalize = value := by
  induction h with
  | null | bool | string | integer => rfl
  | array _ ih =>
    rw [normalize, normalizeItems_eq, List.map_congr_left ih, List.map_id']
  | object _ ih =>
    rw [ofFields, normalize, normalizeMembers_eq, Fields.ofMembers_map, Fields.ofMembers_members,
      Fields.map_eq_self ih]
    rfl

theorem written_eq (h : value.IsPlain levels) (sorted : Bool) : value.written sorted = value := by
  cases sorted
  · rfl
  · exact h.normalize_eq

end IsPlain

end Json

/-- Fields with plain values. -/
def Fields.ArePlain (levels : Nat) (fields : Fields) : Prop :=
  ∀ (name : String) (value : Json), fields[name]? = some value → value.IsPlain levels

namespace Fields.ArePlain

variable {levels : Nat} {fields upper : Fields} {name : String} {value : Json}

theorem empty : (∅ : Fields).ArePlain levels := fun _ _ hget ↦ by
  rw [Std.ExtTreeMap.getElem?_empty] at hget
  cases hget

theorem mono {more : Nat} (h : fields.ArePlain levels) (le : levels ≤ more) :
    fields.ArePlain more := fun name value hget ↦ (h name value hget).mono le

theorem insert (h : fields.ArePlain levels) (hvalue : value.IsPlain levels) :
    Fields.ArePlain levels (fields.insert name value) := by
  intro other found hget
  rw [Std.ExtTreeMap.getElem?_insert] at hget
  split at hget
  · rwa [← Option.some.inj hget]
  · exact h other found hget

theorem overlay (h : fields.ArePlain levels) (hupper : upper.ArePlain levels) :
    (fields.overlay upper).ArePlain levels := fun name value hget ↦
  (Fields.getElem?_overlay hget).elim (hupper name value) (h name value)

/-- A plain object has plain values under its names. -/
theorem of_object {members : List (String × Json)} (h : (Json.object members).IsPlain levels) :
    ∃ less, levels = less + 1 ∧ (Fields.ofMembers members).ArePlain less := by
  generalize hobject : Json.object members = whole at h
  cases h with
  | object h =>
    obtain rfl := Json.object.inj hobject
    rw [Fields.ofMembers_members]
    exact ⟨_, rfl, h⟩
  | null | bool | integer | string | array => cases hobject

end Fields.ArePlain

namespace Decoder

variable {levels : Nat}

theorem toMembers_eq (members : List (String × Json)) :
    Json.toMembers members =
      members.map fun member ↦ (.text (some member.1), member.2.toDocument) := by
  induction members with
  | nil => rfl
  | cons member rest ih => rw [Json.toMembers, ih, List.map_cons]

theorem fields_of_plain {entries : List (String × Json)}
    (h : ∀ entry ∈ entries, entry.2.IsPlain levels) :
    Decoder.fields (levels + 1) (Json.object entries).toDocument =
      .ok (Fields.ofMembers entries) := by
  rw [Json.toDocument]
  change Except.map Fields.ofMembers (do
    let values ← (Json.toMembers entries).mapM _
    checkEnding .bracket
    pure values) = _
  rw [toMembers_eq, List.mapM_map, mapM_eq_ok (g := id), List.map_id]
  · rfl
  · intro entry hmem
    have hvalue : json levels entry.2.toDocument = .ok entry.2 := by
      rw [Json.json_toDocument (h entry hmem).isLegible, (h entry hmem).reread_eq]
    change (do
      let value ← json levels entry.2.toDocument
      pure (entry.1, value)) = _
    rw [hvalue]
    rfl

/-- An object of plain values is read as its members say. -/
theorem reads_object {members : List (String × Json)} (distinct : Fields.AreDistinct members)
    (h : ∀ member ∈ members, member.2.IsPlain levels) :
    Decoder.fields.Reads (levels + 1) (.object members) (Fields.ofMembers members) := by
  intro sorted
  obtain ⟨entries, hwritten, hdistinct, hentries⟩ := Json.written_object sorted distinct
  have hsame : ∀ name value, (name, value) ∈ entries ↔ (name, value) ∈ members := by
    intro name value
    rw [hentries]
    constructor
    · rintro ⟨v, hmem, rfl⟩
      rwa [(h _ hmem).written_eq]
    · exact fun hmem ↦ ⟨value, hmem, (h _ hmem).written_eq sorted⟩
  rw [hwritten, fields_of_plain fun entry hentry ↦ h entry ((hsame _ _).mp hentry)]
  refine congrArg Except.ok (Fields.ofMembers_eq_of_mem_iff hdistinct fun name value ↦ ?_)
  rw [hsame, Fields.getElem?_ofMembers_iff distinct]

/-- Plain fields are read as they are. -/
theorem reads_fields {fields : Fields} (h : fields.ArePlain levels) :
    Decoder.fields.Reads (levels + 1) (.ofFields fields) fields := by
  have hread := reads_object fields.areDistinct_members fun member hmem ↦
    h member.1 member.2 (Fields.mem_members_iff.mp hmem)
  rwa [Fields.ofMembers_members] at hread

end Decoder

end Moderation
