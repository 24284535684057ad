import Moderation.Document.Record
import Moderation.Proofs.Json.Reread

/-!
# What decoders read

A decoder reads a value as a result when it makes the result of the text of the value, the members
of objects being in the order of their names or as they were given. The lemmas go with the
decoders: one for each kind of value, and one for records, which members of every order make.
-/

namespace Moderation

namespace Json

/-- A value as it is written: as it is, or with the members of its objects in order. -/
def written (sorted : Bool) (value : Json) : Json := if sorted then value.normalize else value

variable {sorted : Bool} {levels : Nat}

/-- In whichever order members are written, they are read as the same value. -/
theorem reread_written (value : Json) : (value.written sorted).reread = value.reread := by
  cases sorted
  · rfl
  · exact value.reread_normalize

theorem isLegible_written {value : Json} (h : value.isLegible levels = true) :
    (value.written sorted).isLegible levels = true := by
  cases sorted
  · exact h
  · exact isLegible_normalize h

theorem written_array (items : List Json) :
    (array items).written sorted = array (items.map (written sorted)) := by
  cases sorted
  · exact congrArg array (List.map_id' items).symm
  · exact congrArg array (normalizeItems_eq items)

/-- An object is written as an object of the same members, in some order. -/
theorem written_object (sorted : Bool) {members : List (String × Json)}
    (h : Fields.AreDistinct members) :
    ∃ entries, (object members).written sorted = object entries ∧ Fields.AreDistinct entries ∧
      ∀ name value, (name, value) ∈ entries ↔
        ∃ v, (name, v) ∈ members ∧ v.written sorted = value := by
  cases sorted with
  | false => exact ⟨members, rfl, h, fun name value ↦ by simp [written]⟩
  | true =>
    have hdistinct : Fields.AreDistinct (normalizeMembers members) := by
      rw [normalizeMembers_eq, Fields.AreDistinct, List.map_map]
      exact h
    refine ⟨_, rfl, Fields.areDistinct_members _, fun name value ↦ ?_⟩
    rw [Fields.mem_members_iff, Fields.getElem?_ofMembers_iff hdistinct, normalizeMembers_eq,
      List.mem_map]
    constructor
    · rintro ⟨member, hmem, heq⟩
      obtain ⟨rfl, rfl⟩ := Prod.mk.inj heq
      exact ⟨member.2, hmem, rfl⟩
    · rintro ⟨v, hmem, rfl⟩
      exact ⟨(name, v), hmem, rfl⟩

end Json

namespace Decoder

variable {α β : Type} {decode : Decoder α} {levels : Nat} {value : Json} {result : α}

/-- The decoder makes the result of what is written of the value. -/
def Reads (decode : Decoder α) (levels : Nat) (value : Json) (result : α) : Prop :=
  ∀ sorted, decode levels (value.written sorted).toDocument = .ok result

/-- What a decoder reads from a value it reads from the text of the value. -/
theorem Reads.decode_text (h : decode.Reads Json.depth value result) :
    Json.decode decode value.text = .ok result := by
  have hread : decode Json.depth value.toDocument = .ok result := h false
  rw [Json.decode, Json.document_text]
  simp only [hread]
  rfl

/-- And from the text with the members in order. -/
theorem Reads.decode_normalized (h : decode.Reads Json.depth value result) :
    Json.decode decode value.normalize.text = .ok result := by
  have hread : decode Json.depth value.normalize.toDocument = .ok result := h true
  rw [Json.decode, Json.document_text]
  simp only [hread]
  rfl

theorem reads_string (s : String) : string.Reads levels (.string s) s := by
  rintro (_ | _) <;> rfl

theorem reads_bool (b : Bool) : bool.Reads levels (.bool b) b := by
  rintro (_ | _) <;> rfl

/-- A numeral is read as an unsigned integer if its number is one. -/
theorem uint64_number {numeral : Numeral} {m : Number} {n : UInt64}
    (value : numeral.value? = some m) (fits : m.toUInt64? = some n) :
    uint64 levels (.number numeral) = .ok n := by
  unfold uint64 Document.untagged
  dsimp only
  rw [value]
  dsimp only
  rw [fits]

theorem reads_uint64 (n : UInt64) : uint64.Reads levels (.ofUInt64 n) n := by
  have hread : uint64 levels (.number (Number.integer n.toNat).numeral) = .ok n :=
    uint64_number (Number.value?_integer (Number.inRange_toNat n)) (Number.toUInt64?_toNat n)
  rintro (_ | _) <;> exact hread

/-- A decoder that goes on with what another one reads. -/
theorem Reads.bind {f : α → Except DecodeFault β} {b : β} (h : decode.Reads levels value result)
    (then_ : f result = .ok b) :
    Reads (fun levels d ↦ decode levels d >>= f) levels value b := by
  intro sorted
  simp only [h sorted]
  exact then_

theorem Reads.map (h : decode.Reads levels value result) (f : α → β) :
    Reads (fun levels d ↦ (decode levels d).map f) levels value (f result) := by
  intro sorted
  simp only [h sorted]
  rfl

theorem reads_choice {ofName? : String → Option α} {name : String}
    (h : ofName? name = some result) : (choice ofName?).Reads levels (.string name) result := by
  have hread : choice ofName? levels (.text (some name)) = .ok result := by
    simp only [choice, named, h]
  rintro (_ | _) <;> exact hread

theorem reads_none : (optional decode).Reads levels .null none := by
  rintro (_ | _) <;> rfl

theorem written_ne_null {sorted : Bool} (h : value ≠ .null) : value.written sorted ≠ .null := by
  cases sorted
  · exact h
  · cases value <;> simp_all [Json.written, Json.normalize, Json.ofFields]

/-- A value that is there is read as what it is. -/
theorem Reads.some (h : decode.Reads levels value result) (present : value ≠ .null) :
    (optional decode).Reads levels value (some result) := by
  intro sorted
  have hread := h sorted
  have hpresent : value.written sorted ≠ .null := written_ne_null present
  generalize value.written sorted = v at hread hpresent
  have hoptional :
      optional decode levels v.toDocument = (decode levels v.toDocument).map .some := by
    cases v <;> first | rfl | contradiction
  rw [hoptional, hread]
  rfl

/-- Nothing is written as null, so no value that is there may be. -/
theorem reads_optional {encode : α → Json} {x : Option α}
    (h : ∀ a, x = .some a → decode.Reads levels (encode a) a) (present : ∀ a, encode a ≠ .null) :
    (optional decode).Reads levels (.ofOption encode x) x := by
  cases x with
  | none => exact reads_none
  | some a => exact (h a rfl).some (present a)

theorem mapM_eq_ok {ε : Type} {f : α → Except ε β} {g : α → β} {items : List α}
    (h : ∀ a ∈ items, f a = .ok (g a)) : items.mapM f = .ok (items.map g) := by
  induction items with
  | nil => rfl
  | cons a rest ih =>
    obtain ⟨ha, hrest⟩ := List.forall_mem_cons.mp h
    rw [List.mapM_cons, ha, ih hrest]
    rfl

/-- A list takes one level, and its items are read one by one. -/
theorem reads_list {items : List β} {encode : β → Json} {f : β → α}
    (h : ∀ b ∈ items, decode.Reads levels (encode b) (f b)) :
    (list decode).Reads (levels + 1) (.array (items.map encode)) (items.map f) := by
  intro sorted
  have hitems : (items.map fun b ↦ ((encode b).written sorted).toDocument).mapM (decode levels) =
      .ok (items.map f) := by
    rw [List.mapM_map]
    exact mapM_eq_ok fun b hb ↦ h b hb sorted
  rw [Json.written_array, Json.toDocument, Json.toItems_eq, List.map_map, List.map_map]
  change (do
    let values ← (items.map fun b ↦ ((encode b).written sorted).toDocument).mapM (decode levels)
    checkEnding .bracket
    pure values) = _
  rw [hitems]
  rfl

/-- What is read of the member with a name, if there is one. -/
def Finds (decode : Decoder α) (levels : Nat) (members : List (String × Json)) (name : String) :
    Option α → Prop
  | some result => ∃ value, (name, value) ∈ members ∧ decode.Reads levels value result
  | none => ∀ value, (name, value) ∉ members

/-- A member that is there exactly for a value is read as that value, and else missing. -/
theorem finds_of_mem_iff {x : Option β} {members : List (String × Json)} {name : String}
    {encode : β → Json} {f : β → α}
    (mem_iff : ∀ value, (name, value) ∈ members ↔ ∃ b, x = .some b ∧ value = encode b)
    (reads : ∀ b, x = .some b → decode.Reads levels (encode b) (f b))
    (present : ∀ b, encode b ≠ .null) :
    (optional decode).Finds levels members name (x.map fun b ↦ .some (f b)) := by
  cases x with
  | none => exact fun value ↦ by simp [mem_iff]
  | some b => exact ⟨encode b, (mem_iff _).mpr ⟨b, rfl, rfl⟩, (reads b rfl).some (present b)⟩

end Decoder

end Moderation
