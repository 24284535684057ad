import Moderation.Document.Text
import Moderation.Proofs.Json.Fields
import Moderation.Proofs.Json.Reading
import Moderation.Proofs.Json.Value

/-!
# Values that come back

A value comes back from its text with its objects in order and its numbers as the text has them,
provided that it lies no deeper than a reader goes and that every number in it is of the range of
its kind.
-/

namespace Moderation

namespace Number

/-- The number that the text of a number stands for. -/
def reread (n : Number) : Number := n.numeral.value?.getD n

/-- A number that fits is read from its numeral as what reading makes of it. -/
theorem value?_numeral {n : Number} (h : n.fits = true) : n.numeral.value? = some n.reread := by
  obtain ⟨m, hm⟩ := Option.isSome_iff_exists.mp (isSome_value? h)
  rw [reread, hm, Option.getD_some]

/-- An integer in range is read as itself. -/
theorem reread_integer {n : Int} (h : InRange n) : (integer n).reread = integer n := by
  rw [reread, value?_integer h, Option.getD_some]

end Number

namespace Json

mutual

/-- The value as it comes back from its text. -/
def reread : Json → Json
  | null => null
  | bool b => bool b
  | number n => number n.reread
  | string s => string s
  | array items => array (rereadItems items)
  | object members => ofFields (Fields.ofMembers (rereadMembers members))

def rereadItems : List Json → List Json
  | [] => []
  | item :: rest => reread item :: rereadItems rest

def rereadMembers : List (String × Json) → List (String × Json)
  | [] => []
  | (name, value) :: rest => (name, reread value) :: rereadMembers rest

end

mutual

/-- Whether a reader with so many levels left can read the value. -/
def isLegible : Json → Nat → Bool
  | null, _ => true
  | bool _, _ => true
  | number n, _ => n.fits
  | string _, _ => true
  | array items, levels => match levels with
    | 0 => false
    | levels + 1 => areLegibleItems items levels
  | object members, levels => match levels with
    | 0 => false
    | levels + 1 => areLegibleMembers members levels

def areLegibleItems : List Json → Nat → Bool
  | [], _ => true
  | item :: rest, levels => isLegible item levels && areLegibleItems rest levels

def areLegibleMembers : List (String × Json) → Nat → Bool
  | [], _ => true
  | (_, value) :: rest, levels => isLegible value levels && areLegibleMembers rest levels

end

theorem normalizeItems_eq (items : List Json) : normalizeItems items = items.map normalize := by
  induction items with
  | nil => rfl
  | cons item rest ih => rw [normalizeItems, ih, List.map_cons]

theorem normalizeMembers_eq (members : List (String × Json)) :
    normalizeMembers members = members.map fun member ↦ (member.1, member.2.normalize) := by
  induction members with
  | nil => rfl
  | cons member rest ih => rw [normalizeMembers, ih, List.map_cons]

theorem rereadItems_eq (items : List Json) : rereadItems items = items.map reread := by
  induction items with
  | nil => rfl
  | cons item rest ih => rw [rereadItems, ih, List.map_cons]

theorem rereadMembers_eq (members : List (String × Json)) :
    rereadMembers members = members.map fun member ↦ (member.1, member.2.reread) := by
  induction members with
  | nil => rfl
  | cons member rest ih => rw [rereadMembers, ih, List.map_cons]

theorem toItems_eq (items : List Json) : toItems items = items.map toDocument := by
  induction items with
  | nil => rfl
  | cons item rest ih => rw [toItems, ih, List.map_cons]

/-- Items are legible if each of them is. -/
theorem areLegibleItems_iff {items : List Json} {levels : Nat} :
    areLegibleItems items levels = true ↔ ∀ item ∈ items, item.isLegible levels = true := by
  induction items with
  | nil => simp [areLegibleItems]
  | cons item rest ih => simp [areLegibleItems, ih]

/-- Members are legible if the value of each is. -/
theorem areLegibleMembers_iff {members : List (String × Json)} {levels : Nat} :
    areLegibleMembers members levels = true ↔
      ∀ member ∈ members, member.2.isLegible levels = true := by
  induction members with
  | nil => simp [areLegibleMembers]
  | cons member rest ih =>
    rw [areLegibleMembers, Bool.and_eq_true, ih, List.forall_mem_cons]

theorem isLegible_integer {n : Int} (h : Number.InRange n) (levels : Nat) :
    (number (.integer n)).isLegible levels = true := decide_eq_true h

theorem isLegible_real {x : Binary64} (h : x.InRange) (levels : Nat) :
    (number (.real x)).isLegible levels = true := decide_eq_true h

/-- An object can be read with one level more than its members need. -/
theorem isLegible_object_iff {members : List (String × Json)} {levels : Nat} :
    (object members).isLegible levels = true ↔
      ∃ less, levels = less + 1 ∧ ∀ member ∈ members, member.2.isLegible less = true := by
  cases levels with
  | zero => simp [isLegible]
  | succ levels => simp [isLegible, areLegibleMembers_iff]

/-- A list takes one level. -/
theorem isLegible_array_iff {items : List Json} {levels : Nat} :
    (array items).isLegible levels = true ↔
      ∃ less, levels = less + 1 ∧ ∀ item ∈ items, item.isLegible less = true := by
  cases levels with
  | zero => simp [isLegible]
  | succ levels => simp [isLegible, areLegibleItems_iff]

/-- What holds of a value as soon as it holds of its items or of the values of its members holds of
every value. -/
@[elab_as_elim]
theorem byParts {motive : Json → Prop} (null : motive null) (bool : ∀ b, motive (bool b))
    (number : ∀ n, motive (number n)) (string : ∀ s, motive (string s))
    (array : ∀ items, (∀ item ∈ items, motive item) → motive (array items))
    (object : ∀ members, (∀ member ∈ members, motive member.2) → motive (object members))
    (value : Json) : motive value :=
  Json.rec (motive_2 := fun items ↦ ∀ item ∈ items, motive item)
    (motive_3 := fun members ↦ ∀ member ∈ members, motive member.2)
    (motive_4 := fun member ↦ motive member.2)
    null bool number string array object
    nofun (fun _ _ hitem hrest ↦ List.forall_mem_cons.mpr ⟨hitem, hrest⟩)
    nofun (fun _ _ hmember hrest ↦ List.forall_mem_cons.mpr ⟨hmember, hrest⟩)
    (fun _ _ hvalue ↦ hvalue) value

/-! ## Reading -/

theorem soundItems_toItems {items : List Json}
    (h : ∀ item ∈ items, item.toDocument.sound = true) :
    Document.soundItems (toItems items) = true := by
  induction items with
  | nil => rfl
  | cons item rest ih =>
    obtain ⟨hitem, hrest⟩ := List.forall_mem_cons.mp h
    simp [toItems, Document.soundItems, hitem, ih hrest]

theorem soundMembers_toMembers {members : List (String × Json)}
    (h : ∀ member ∈ members, member.2.toDocument.sound = true) :
    Document.soundMembers (toMembers members) = true := by
  induction members with
  | nil => rfl
  | cons member rest ih =>
    obtain ⟨hmember, hrest⟩ := List.forall_mem_cons.mp h
    simp [toMembers, Document.soundMembers, Document.sound, hmember, ih hrest]

/-- Nothing is wrong with the text of a value. -/
theorem sound_toDocument (value : Json) : value.toDocument.sound = true := by
  induction value using byParts with
  | null | bool b | number n | string s => rfl
  | array items ih => simp [toDocument, Document.sound, soundItems_toItems ih]
  | object members ih => simp [toDocument, Document.sound, soundMembers_toMembers ih]

variable {levels : Nat}

/-- Items are read one by one, at the same level. -/
theorem jsonItems_toItems {items : List Json}
    (h : ∀ item ∈ items, Decoder.json levels item.toDocument = .ok item.reread) :
    Decoder.jsonItems levels (toItems items) = .ok (rereadItems items) := by
  induction items with
  | nil => rfl
  | cons item rest ih =>
    obtain ⟨hitem, hrest⟩ := List.forall_mem_cons.mp h
    rw [toItems, Decoder.jsonItems, hitem, ih hrest]
    rfl

/-- So are members, and their names stay. -/
theorem jsonMembers_toMembers {members : List (String × Json)}
    (h : ∀ member ∈ members, Decoder.json levels member.2.toDocument = .ok member.2.reread) :
    Decoder.jsonMembers levels (toMembers members) = .ok (rereadMembers members) := by
  induction members with
  | nil => rfl
  | cons member rest ih =>
    obtain ⟨hmember, hrest⟩ := List.forall_mem_cons.mp h
    rw [toMembers, Decoder.jsonMembers, hmember, ih hrest]
    rfl

/-- What the document of a value is read as. -/
theorem json_toDocument {value : Json} (h : value.isLegible levels = true) :
    Decoder.json levels value.toDocument = .ok value.reread := by
  induction value using byParts generalizing levels with
  | null | bool b | string s => rfl
  | number n =>
    rw [toDocument, Decoder.json, Number.value?_numeral h]
    rfl
  | array items ih =>
    obtain ⟨less, rfl, hitems⟩ := isLegible_array_iff.mp h
    rw [toDocument, Decoder.json, jsonItems_toItems fun item hmem ↦ ih item hmem (hitems item hmem)]
    rfl
  | object members ih =>
    obtain ⟨less, rfl, hmembers⟩ := isLegible_object_iff.mp h
    rw [toDocument, Decoder.json,
      jsonMembers_toMembers fun member hmem ↦ ih member hmem (hmembers member hmem)]
    rfl

/-- With more levels nothing gets illegible. -/
theorem isLegible_mono {value : Json} {more : Nat} (h : value.isLegible levels = true)
    (le : levels ≤ more) : value.isLegible more = true := by
  induction value using byParts generalizing levels more with
  | null | bool b | string s => rfl
  | number n => exact h
  | array items ih =>
    obtain ⟨less, rfl, hitems⟩ := isLegible_array_iff.mp h
    obtain ⟨least, rfl⟩ := Nat.exists_eq_add_one_of_ne_zero (Nat.ne_zero_of_lt le)
    exact isLegible_array_iff.mpr ⟨least, rfl, fun item hmem ↦
      ih item hmem (hitems item hmem) (Nat.le_of_succ_le_succ le)⟩
  | object members ih =>
    obtain ⟨less, rfl, hmembers⟩ := isLegible_object_iff.mp h
    obtain ⟨least, rfl⟩ := Nat.exists_eq_add_one_of_ne_zero (Nat.ne_zero_of_lt le)
    exact isLegible_object_iff.mpr ⟨least, rfl, fun member hmem ↦
      ih member hmem (hmembers member hmem) (Nat.le_of_succ_le_succ le)⟩

/-- Fields take one level, too. -/
theorem isLegible_ofFields_iff {fields : Fields} :
    (ofFields fields).isLegible levels = true ↔
      ∃ less, levels = less + 1 ∧
        ∀ (name : String) (value : Json), fields[name]? = some value →
          value.isLegible less = true := by
  rw [ofFields, isLegible_object_iff]
  simp only [Prod.forall, Fields.mem_members_iff]

/-- The order of members does not matter for reading. -/
theorem isLegible_normalize {value : Json} (h : value.isLegible levels = true) :
    value.normalize.isLegible levels = true := by
  induction value using byParts generalizing levels with
  | null | bool b | string s => rfl
  | number n => exact h
  | array items ih =>
    obtain ⟨less, rfl, hitems⟩ := isLegible_array_iff.mp h
    refine isLegible_array_iff.mpr ⟨less, rfl, ?_⟩
    rw [normalizeItems_eq, List.forall_mem_map]
    exact fun item hmem ↦ ih item hmem (hitems item hmem)
  | object members ih =>
    obtain ⟨less, rfl, hmembers⟩ := isLegible_object_iff.mp h
    refine isLegible_ofFields_iff.mpr ⟨less, rfl, fun name value hget ↦ ?_⟩
    have hmem := Fields.mem_of_getElem?_ofMembers hget
    rw [normalizeMembers_eq, List.mem_map] at hmem
    obtain ⟨member, hmember, heq⟩ := hmem
    obtain ⟨rfl, rfl⟩ := Prod.mk.inj heq
    exact ih member hmember (hmembers member hmember)

/-- A value comes back the same however its members were ordered. -/
theorem reread_normalize (value : Json) : value.normalize.reread = value.reread := by
  induction value using byParts with
  | null | bool b | string s | number n => rfl
  | array items ih =>
    rw [normalize, reread, reread, normalizeItems_eq, rereadItems_eq, rereadItems_eq, List.map_map]
    exact congrArg array (List.map_congr_left ih)
  | object members ih =>
    rw [normalize, ofFields, reread, reread, rereadMembers_eq, Fields.ofMembers_map,
      Fields.ofMembers_members, ← Fields.ofMembers_map, rereadMembers_eq, normalizeMembers_eq,
      List.map_map]
    refine congrArg (ofFields <| Fields.ofMembers ·) (List.map_congr_left fun member hmem ↦ ?_)
    exact congrArg (member.1, ·) (ih member hmem)

end Json

end Moderation
