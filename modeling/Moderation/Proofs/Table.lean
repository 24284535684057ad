import Mathlib.Data.List.Nodup
import Moderation.Identity

/-!
# Tables and their entries

A table from keys to values, as a finite map and as the list of its entries.
-/

namespace Moderation.Table

variable {κ α : Type}

theorem mem_of_lookup [BEq κ] [LawfulBEq κ] {entries : List (κ × α)} {key : κ} {a : α}
    (h : entries.lookup key = some a) : (key, a) ∈ entries := by
  obtain ⟨before, after, hentries, -⟩ := List.lookup_eq_some_iff.mp h
  simp [hentries]

theorem lookup_eq_some_iff [BEq κ] [LawfulBEq κ] {entries : List (κ × α)}
    (distinct : (entries.map Prod.fst).Nodup) {key : κ} {a : α} :
    entries.lookup key = some a ↔ (key, a) ∈ entries := by
  constructor
  · exact mem_of_lookup
  · intro hmem
    rw [List.lookup_eq_some_iff]
    obtain ⟨before, after, hentries⟩ := List.append_of_mem hmem
    refine ⟨before, after, hentries, fun entry hentry ↦ ?_⟩
    rw [hentries, List.map_append, List.nodup_append] at distinct
    have hne : entry.1 ≠ key :=
      distinct.2.2 entry.1 (List.mem_map_of_mem hentry) key (by simp)
    simpa using hne.symm

theorem lookup_eq_none [BEq κ] [LawfulBEq κ] {entries : List (κ × α)} {key : κ}
    (fresh : key ∉ entries.map Prod.fst) : entries.lookup key = none := by
  rw [List.lookup_eq_none_iff]
  intro entry hentry
  rw [bne_iff_ne]
  rintro rfl
  exact fresh (List.mem_map_of_mem hentry)

variable [Ord κ] [Std.TransOrd κ]

/-- The table with some entries more, put in one after another. -/
abbrev insertAll (t : Std.ExtTreeMap κ α) (entries : List (κ × α)) : Std.ExtTreeMap κ α :=
  entries.foldl (fun t entry ↦ t.insert entry.1 entry.2) t

theorem ofList_eq (entries : List (κ × α)) :
    (Std.ExtTreeMap.ofList entries : Std.ExtTreeMap κ α) = insertAll ∅ entries :=
  Std.ExtTreeMap.ofList_eq_foldl

theorem nodup_keys (t : Std.ExtTreeMap κ α) : (t.toList.map Prod.fst).Nodup := by
  rw [Std.ExtTreeMap.map_fst_toList_eq_keys]
  exact Std.ExtTreeMap.nodup_keys

variable [Std.LawfulEqOrd κ] [BEq κ] [LawfulBEq κ]

theorem lookup_toList (t : Std.ExtTreeMap κ α) (key : κ) : t.toList.lookup key = t[key]? := by
  apply Option.ext
  intro a
  rw [lookup_eq_some_iff (nodup_keys t), Std.ExtTreeMap.mem_toList_iff_getElem?_eq_some]

theorem lookup_reverse_toList (t : Std.ExtTreeMap κ α) (key : κ) :
    t.toList.reverse.lookup key = t[key]? := by
  have hdistinct : (t.toList.reverse.map Prod.fst).Nodup := by
    rw [List.map_reverse, List.nodup_reverse]
    exact nodup_keys t
  apply Option.ext
  intro a
  rw [lookup_eq_some_iff hdistinct, List.mem_reverse,
    Std.ExtTreeMap.mem_toList_iff_getElem?_eq_some]

/-- The last entry for a key counts. -/
theorem getElem?_insertAll (t : Std.ExtTreeMap κ α) (entries : List (κ × α)) (key : κ) :
    (insertAll t entries)[key]? = (entries.reverse.lookup key).or t[key]? := by
  induction entries generalizing t with
  | nil => rfl
  | cons entry rest ih =>
    obtain ⟨own, a⟩ := entry
    have hinsert : (t.insert own a)[key]? = ([(own, a)].lookup key).or t[key]? := by
      rw [Std.ExtTreeMap.getElem?_insert]
      by_cases hkey : own = key
      · simp [hkey]
      · simp [hkey, List.lookup_cons, beq_eq_false_iff_ne.mpr (Ne.symm hkey)]
    rw [insertAll, List.foldl_cons, ih, hinsert, ← Option.or_assoc, List.reverse_cons,
      List.lookup_append]

theorem mem_of_getElem?_insertAll {t : Std.ExtTreeMap κ α} {entries : List (κ × α)} {key : κ}
    {a : α} (h : (insertAll t entries)[key]? = some a) : (key, a) ∈ entries ∨ t[key]? = some a := by
  rw [getElem?_insertAll, Option.or_eq_some_iff] at h
  apply h.imp
  · exact fun hlookup ↦ List.mem_reverse.mp (mem_of_lookup hlookup)
  · exact And.right

theorem getElem?_insertAll_toList (lower upper : Std.ExtTreeMap κ α) (key : κ) :
    (insertAll lower upper.toList)[key]? = upper[key]?.or lower[key]? := by
  rw [getElem?_insertAll, lookup_reverse_toList]

/-- A table is what the list of its entries makes. -/
theorem ofList_toList (t : Std.ExtTreeMap κ α) :
    (Std.ExtTreeMap.ofList t.toList : Std.ExtTreeMap κ α) = t := by
  apply Std.ExtTreeMap.ext_getElem?
  intro key
  rw [ofList_eq, getElem?_insertAll_toList, Std.ExtTreeMap.getElem?_empty, Option.or_none]

end Moderation.Table
