import Moderation.Session.Live
import Moderation.Proofs.Queue.Told
import Moderation.Proofs.Table

/-!
# The store, entry by entry

What the operations of a store make of the entry of one reviewable.
-/

namespace Moderation

namespace Store

variable {s : Store} {id : ReviewableId}

theorem contains_eq_isSome_get? (s : Store) (id : ReviewableId) :
    s.contains id = (s.get? id).isSome := by
  rw [get?, Option.isSome_map, Std.ExtTreeMap.isSome_getElem?_eq_contains]
  rfl

/-- Of a list of ids each entry is gone, however often its id is there. -/
theorem entries_eraseAll (entries : Entries) (ids : List ReviewableId) (id : ReviewableId) :
    (eraseAll entries ids).1[id]? = if id ∈ ids then none else entries[id]? := by
  induction ids generalizing entries with
  | nil => simp [eraseAll]
  | cons first rest ih =>
    unfold eraseAll
    by_cases hcontains : entries.contains first = true
    · rw [if_pos hcontains]
      change (eraseAll (entries.erase first) rest).1[id]? = _
      rw [ih, Std.ExtTreeMap.getElem?_erase]
      by_cases hfirst : first = id
      · simp [hfirst]
      · simp [hfirst, Ne.symm hfirst]
    · rw [if_neg hcontains, ih]
      by_cases hfirst : first = id
      · subst first
        have hnone : entries[id]? = none := by
          exact Std.ExtTreeMap.getElem?_eq_none_of_contains_eq_false
            (eq_false_of_ne_true hcontains)
        simp [hnone]
      · simp [Ne.symm hfirst]

theorem entries_remove (s : Store) (ids : List ReviewableId) (id : ReviewableId) :
    (s.remove ids).store.entries[id]? = if id ∈ ids then none else s.entries[id]? :=
  entries_eraseAll s.entries ids id

/-- The claim is written on every entry of the topic, and markers stay. -/
theorem entries_setTopicClaim (s : Store) (topic : TopicId) (claim : Option Claim)
    (id : ReviewableId) :
    (s.setTopicClaim topic claim).store.entries[id]? =
      s.entries[id]?.map fun e ↦
        { e with reviewable := e.reviewable.withTopicClaim topic claim } := by
  change (s.entries.map _)[id]? = _
  rw [Std.ExtTreeMap.getElem?_map]
  congr 1
  funext e
  unfold Reviewable.withTopicClaim
  split <;> rfl

theorem get?_setTopicClaim (s : Store) (topic : TopicId) (claim : Option Claim)
    (id : ReviewableId) :
    (s.setTopicClaim topic claim).store.get? id =
      (s.get? id).map (·.withTopicClaim topic claim) := by
  unfold get?
  rw [entries_setTopicClaim, Option.map_map, Option.map_map]
  rfl

@[simp]
theorem entries_applyCounts (s : Store) (reviewables unseen : Option UInt64) :
    (s.applyCounts reviewables unseen).store.entries = s.entries := by
  unfold applyCounts
  dsimp only
  split <;> rfl

/-- A count that is not told stays as it was. -/
theorem counts_applyCounts (s : Store) (reviewables unseen : Option UInt64) :
    (s.applyCounts reviewables unseen).store.counts =
      ⟨reviewables.or s.counts.reviewables, unseen.or s.counts.unseen⟩ := by
  unfold applyCounts
  dsimp only
  split
  · rename_i hsame
    exact hsame.symm
  · rfl

/-- A newer copy goes in where there is one already. -/
theorem entries_refresh (s : Store) (r : Reviewable) (id : ReviewableId) :
    (s.refresh r).store.entries[id]? =
      if r.id = id then
        s.entries[id]?.map fun e ↦ if e.reviewable.same r then e else { e with reviewable := r }
      else s.entries[id]? := by
  unfold refresh
  by_cases hid : r.id = id
  · subst id
    cases hold : s.entries[r.id]? with
    | none =>
      rw [if_pos rfl]
      exact hold
    | some old =>
      rw [if_pos rfl]
      by_cases hsame : old.reviewable.same r = true
      · simpa [hsame] using hold
      · simp [hsame]
  · cases hold : s.entries[r.id]? with
    | none => simp [hid]
    | some old =>
      by_cases hsame : old.reviewable.same r = true
      · simp [hsame, hid]
      · simp [hsame, hid, Std.ExtTreeMap.getElem?_insert]

/-- A refresh writes over a copy that is there and is not the same. -/
theorem get?_refresh (s : Store) (r : Reviewable) (id : ReviewableId) :
    (s.refresh r).store.get? id =
      if r.id = id then (s.get? id).map fun old ↦ if old.same r then old else r
      else s.get? id := by
  unfold get?
  rw [entries_refresh]
  split
  · rw [Option.map_map, Option.map_map]
    congr 1
    funext e
    dsimp only [Function.comp_apply]
    split <;> rfl
  · rfl

/-- What the store has of a reviewable is its copy after it was taken over. -/
theorem get?_refresh_self {r old : Reviewable} (h : s.get? r.id = some old) :
    ∃ new, (s.refresh r).store.get? r.id = some new ∧ new.same r = true := by
  rw [get?_refresh, if_pos rfl, h, Option.map_some]
  by_cases hsame : old.same r = true
  · exact ⟨old, by rw [if_pos hsame], hsame⟩
  · exact ⟨r, by rw [if_neg hsame], r.same_refl⟩

@[simp]
theorem counts_refresh (s : Store) (r : Reviewable) : (s.refresh r).store.counts = s.counts := by
  unfold refresh
  split
  · split <;> rfl
  · rfl

theorem entries_endUpdate (s : Store) (id other : ReviewableId) :
    (s.endUpdate id).entries[other]? =
      if id = other then s.entries[other]?.map fun e ↦ { e with updating := false }
      else s.entries[other]? := by
  change (s.entries.modify id _)[other]? = _
  rw [Std.ExtTreeMap.getElem?_modify]
  by_cases hid : id = other
  · subst other
    simp
  · simp [hid]

/-- The marker can be set on what the store has and is not marked yet. -/
theorem beginUpdate_eq_ok_iff {s' : Store} :
    s.beginUpdate id = .ok s' ↔ ∃ e, s.entries[id]? = some e ∧ e.updating = false ∧
      s' = { s with entries := s.entries.insert id { e with updating := true } } := by
  unfold beginUpdate
  cases hid : s.entries[id]? with
  | none => simp
  | some e =>
    cases hupdating : e.updating with
    | true => simp [hupdating]
    | false => simp [hupdating, @eq_comm _ s']

/-- A reviewable that is there and not marked can be marked. -/
theorem exists_beginUpdate (tracked : s.contains id = true) (idle : s.isUpdating id = false) :
    ∃ s', s.beginUpdate id = .ok s' := by
  rw [contains, ← Std.ExtTreeMap.isSome_getElem?_eq_contains, Option.isSome_iff_exists] at tracked
  obtain ⟨e, he⟩ := tracked
  rw [isUpdating, he, Option.any_some] at idle
  exact ⟨_, beginUpdate_eq_ok_iff.mpr ⟨e, he, idle, rfl⟩⟩

/-- To take the marker off again that was set leaves the store as it was. -/
theorem endUpdate_of_beginUpdate {s' : Store} (h : s.beginUpdate id = .ok s') :
    s'.endUpdate id = s := by
  obtain ⟨e, he, hidle, rfl⟩ := beginUpdate_eq_ok_iff.mp h
  have hentries : ({ s with entries := s.entries.insert id { e with updating := true } }.endUpdate
      id).entries = s.entries := by
    apply Std.ExtTreeMap.ext_getElem?
    intro other
    rw [entries_endUpdate, Std.ExtTreeMap.getElem?_insert]
    by_cases hid : id = other
    · subst other
      rw [if_pos rfl, if_pos Std.ReflCmp.compare_self, he, Option.map_some, ← hidle]
    · simp [hid]
  exact congrArg (Store.mk · s.counts) hentries

@[simp]
theorem get?_endUpdate (s : Store) (id other : ReviewableId) :
    (s.endUpdate id).get? other = s.get? other := by
  unfold get?
  rw [entries_endUpdate]
  split
  · rw [Option.map_map]
    rfl
  · rfl

theorem get?_beginUpdate {s' : Store} (h : s.beginUpdate id = .ok s') (other : ReviewableId) :
    s'.get? other = s.get? other := by
  obtain ⟨e, he, -, rfl⟩ := beginUpdate_eq_ok_iff.mp h
  unfold get?
  rw [Std.ExtTreeMap.getElem?_insert]
  by_cases hid : id = other
  · subst other
    simp [he]
  · simp [hid]

theorem counts_beginUpdate {s' : Store} (h : s.beginUpdate id = .ok s') : s'.counts = s.counts := by
  obtain ⟨e, -, -, rfl⟩ := beginUpdate_eq_ok_iff.mp h
  rfl

theorem isUpdating_empty (id : ReviewableId) : empty.isUpdating id = false := by
  simp [isUpdating, empty]

/-- After a load there is what is pending, with the markers that there were. -/
theorem entries_replaceAll_pending {q : Queue} (hq : q.Keyed) (s : Store) (id : ReviewableId) :
    (s.replaceAll q.pending).store.entries[id]? =
      q.pendingItems[id]?.map fun r ↦ ⟨r, s.isUpdating id⟩ := by
  have hlist : (q.pending.map fun r ↦ (r.id, s.entry r)) =
      (q.pendingItems.map fun id r ↦ (⟨r, s.isUpdating id⟩ : Entry)).toList := by
    rw [Std.ExtTreeMap.toList_map]
    exact hq.map_pending fun id r ↦ (id, (⟨r, s.isUpdating id⟩ : Entry))
  change (Std.ExtTreeMap.ofList (q.pending.map fun r ↦ (r.id, s.entry r)) :
    Std.ExtTreeMap ReviewableId Entry)[id]? = _
  rw [hlist, Table.ofList_toList, Std.ExtTreeMap.getElem?_map]

end Store

end Moderation
