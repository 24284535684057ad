import Mathlib.Tactic.Common
import Moderation.Json
import Moderation.Proofs.Table

/-!
# Fields and their members

What stands under a name of an object, as a finite map and as a list of members. Members with
names of their own make the map whatever order they are in.
-/

namespace Moderation.Fields

variable {fields upper : Fields} {members : List (String × Json)} {name : String} {value : Json}

/-- No name stands twice. -/
abbrev AreDistinct (members : List (String × Json)) : Prop := (members.map Prod.fst).Nodup

theorem mem_members_iff : (name, value) ∈ fields.members ↔ fields[name]? = some value :=
  Std.ExtTreeMap.mem_toList_iff_getElem?_eq_some

theorem areDistinct_members (fields : Fields) : AreDistinct fields.members :=
  Table.nodup_keys fields

theorem AreDistinct.pairwise (h : AreDistinct members) :
    members.Pairwise fun a b ↦ ¬ compare a.1 b.1 = .eq := by
  have hpairwise := List.pairwise_map.mp h
  exact hpairwise.imp fun hne heq ↦ hne (Std.LawfulEqOrd.eq_of_compare heq)

/-- If names are distinct each member is found under its name. -/
theorem getElem?_ofMembers_iff (h : AreDistinct members) :
    (ofMembers members)[name]? = some value ↔ (name, value) ∈ members := by
  have hfound : ∀ {value}, (name, value) ∈ members → (ofMembers members)[name]? = some value :=
    fun hmem ↦ Std.ExtTreeMap.getElem?_ofList_of_mem (Std.ReflCmp.compare_self) h.pairwise hmem
  refine ⟨fun hget ↦ ?_, hfound⟩
  by_cases hname : name ∈ members.map Prod.fst
  · obtain ⟨⟨_, other⟩, hmem, rfl⟩ := List.mem_map.mp hname
    rw [hfound hmem] at hget
    rwa [Option.some.inj hget] at hmem
  · have hnone : (ofMembers members)[name]? = none :=
      Std.ExtTreeMap.getElem?_ofList_of_contains_eq_false (by simpa using hname)
    rw [hnone] at hget
    cases hget

theorem AreDistinct.eq_of_mem {other : Json} (h : AreDistinct members)
    (first : (name, value) ∈ members) (second : (name, other) ∈ members) : value = other := by
  rw [← getElem?_ofMembers_iff h] at first second
  rw [first] at second
  exact Option.some.inj second

/-- Members that say what the fields say make the fields. -/
theorem ofMembers_eq_of_mem_iff (h : AreDistinct members)
    (same : ∀ name value, (name, value) ∈ members ↔ fields[name]? = some value) :
    ofMembers members = fields := by
  apply Std.ExtTreeMap.ext_getElem?
  intro name
  apply Option.ext
  intro value
  rw [getElem?_ofMembers_iff h, same]

/-- Fields come back from their members. -/
theorem ofMembers_members (fields : Fields) : ofMembers fields.members = fields :=
  Table.ofList_toList fields

/-- Members one after another on top of what is there. -/
abbrev putAll (start : Fields) (members : List (String × Json)) : Fields :=
  members.foldl (fun acc member ↦ acc.insert member.1 member.2) start

theorem ofMembers_eq_putAll (members : List (String × Json)) :
    ofMembers members = putAll ∅ members :=
  Table.ofList_eq members

/-- What stands under a name was put there or stood there before. -/
theorem mem_of_getElem?_putAll {start : Fields} (h : (putAll start members)[name]? = some value) :
    (name, value) ∈ members ∨ start[name]? = some value :=
  Table.mem_of_getElem?_insertAll h

/-- What stands under a name of an object is one of its members. -/
theorem mem_of_getElem?_ofMembers (h : (ofMembers members)[name]? = some value) :
    (name, value) ∈ members := by
  rw [ofMembers_eq_putAll] at h
  exact (mem_of_getElem?_putAll h).resolve_right (by simp)

/-- What stands under a name after an overlay stood there in one of the two. -/
theorem getElem?_overlay (h : (fields.overlay upper)[name]? = some value) :
    upper[name]? = some value ∨ fields[name]? = some value :=
  (mem_of_getElem?_putAll h).imp_left mem_members_iff.mp

/-- The entries above hide those below. -/
theorem getElem?_overlay_eq (fields upper : Fields) (name : String) :
    (fields.overlay upper)[name]? = upper[name]?.or fields[name]? :=
  Table.getElem?_insertAll_toList fields upper name

/-- Layers may be put together in any grouping. -/
theorem overlay_assoc (first second third : Fields) :
    (first.overlay second).overlay third = first.overlay (second.overlay third) := by
  apply Std.ExtTreeMap.ext_getElem?
  intro name
  simp only [getElem?_overlay_eq, Option.or_assoc]

theorem overlay_self (fields : Fields) : fields.overlay fields = fields := by
  apply Std.ExtTreeMap.ext_getElem?
  intro name
  rw [getElem?_overlay_eq, Option.or_self]

theorem empty_overlay (fields : Fields) : (∅ : Fields).overlay fields = fields := by
  apply Std.ExtTreeMap.ext_getElem?
  intro name
  simp [getElem?_overlay_eq]

theorem overlay_empty (fields : Fields) : fields.overlay ∅ = fields := by
  apply Std.ExtTreeMap.ext_getElem?
  intro name
  simp [getElem?_overlay_eq]

theorem lookup_members (fields : Fields) (name : String) :
    fields.members.lookup name = fields[name]? :=
  Table.lookup_toList fields name

/-- A change to every value may come before or after making the map. -/
theorem ofMembers_map (f : Json → Json) (members : List (String × Json)) :
    ofMembers (members.map fun member ↦ (member.1, f member.2)) =
      (ofMembers members).map fun _ ↦ f := by
  have hgeneral : ∀ start : Fields,
      putAll (start.map fun _ ↦ f) (members.map fun member ↦ (member.1, f member.2)) =
        (putAll start members).map fun _ ↦ f := by
    induction members with
    | nil => exact fun _ ↦ rfl
    | cons member rest ih =>
      intro start
      have hinsert : (start.map fun _ ↦ f).insert member.1 (f member.2) =
          (start.insert member.1 member.2).map fun _ ↦ f := by
        apply Std.ExtTreeMap.ext_getElem?
        intro name
        simp only [Std.ExtTreeMap.getElem?_insert, Std.ExtTreeMap.getElem?_map]
        split <;> rfl
      exact (congrArg (putAll · _) hinsert).trans (ih _)
  rw [ofMembers_eq_putAll, ofMembers_eq_putAll, ← hgeneral ∅]
  rfl

end Moderation.Fields
