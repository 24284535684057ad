import Moderation.Proofs.Replica
import Moderation.Proofs.Specimen
import Moderation.Proofs.Throughout

/-!
# Markers and their guards

Whoever works on a reviewable holds a guard for it, and the store has a marker on it for as long.
The marker goes with the reviewable when the store drops it. So the marker keeps others out unless
a reviewable that was dropped under a guard is taken in again before the guard is let go.
-/

namespace Moderation

namespace Store

variable {s : Store} {id : ReviewableId}

/-- The marker on a reviewable that the store has, set or not. -/
def marker? (s : Store) (id : ReviewableId) : Option Bool := s.entries[id]?.map (·.updating)

/-- A reviewable that is not in the store is not marked. -/
theorem isUpdating_eq (s : Store) (id : ReviewableId) :
    s.isUpdating id = (s.marker? id).getD false := by
  unfold isUpdating marker?
  cases s.entries[id]? <;> simp

/-- An operation that takes a reviewable in leaves the marker that there was for it. -/
theorem marker?_insert (s : Store) (r : Reviewable) (id : ReviewableId) :
    (s.insert r).store.marker? id = if r.id = id then some (s.isUpdating id) else s.marker? id := by
  unfold marker? insert entry
  rw [Std.ExtTreeMap.getElem?_insert]
  by_cases hid : r.id = id
  · simp [hid]
  · simp [hid]

/-- Every entry that is taken in under a number has the marker of that number. -/
theorem updating_insertMany (entries : Entries) (s : Store) (rs : List Reviewable)
    (id : ReviewableId) :
    (entries.insertMany (rs.map fun r ↦ (r.id, s.entry r)))[id]?.map (·.updating) =
      if id ∈ rs.map (·.id) then some (s.isUpdating id) else entries[id]?.map (·.updating) := by
  induction rs generalizing entries with
  | nil => simp
  | cons r rest ih =>
    rw [List.map_cons, Std.ExtTreeMap.insertMany_cons, ih, Std.ExtTreeMap.getElem?_insert]
    by_cases hrest : id ∈ rest.map (·.id)
    · simp [hrest]
    · by_cases hid : r.id = id
      · simp [hrest, hid, entry]
      · simp [hrest, hid, Ne.symm hid]

/-- Replacing all keeps the markers of what is there again. -/
theorem marker?_replaceAll (s : Store) (rs : List Reviewable) (id : ReviewableId) :
    (s.replaceAll rs).store.marker? id =
      if id ∈ rs.map (·.id) then some (s.isUpdating id) else none := by
  unfold marker? replaceAll
  rw [Std.ExtTreeMap.ofList_eq_insertMany_empty, updating_insertMany]
  simp

/-- Neither a refresh of a copy nor of a stranger touches a marker. -/
@[simp]
theorem marker?_refresh (s : Store) (r : Reviewable) (id : ReviewableId) :
    (s.refresh r).store.marker? id = s.marker? id := by
  unfold marker?
  rw [entries_refresh]
  split
  · cases s.entries[id]? with
    | none => rfl
    | some e => cases hsame : e.reviewable.same r <;> simp [hsame]
  · rfl

/-- A marker goes with its reviewable. -/
theorem marker?_remove (s : Store) (ids : List ReviewableId) (id : ReviewableId) :
    (s.remove ids).store.marker? id = if id ∈ ids then none else s.marker? id := by
  unfold marker?
  rw [entries_remove]
  split <;> rfl

@[simp]
theorem marker?_setClaim (s : Store) (other : ReviewableId) (claim : Option Claim)
    (id : ReviewableId) : (s.setClaim other claim).store.marker? id = s.marker? id := by
  unfold marker? setClaim
  cases hother : s.entries[other]? with
  | none => rfl
  | some old =>
    by_cases hclaim : old.reviewable.claim = claim
    · simp [hclaim]
    · by_cases hid : other = id
      · subst other
        simp [hclaim, hother]
      · simp [hclaim, Std.ExtTreeMap.getElem?_insert, hid]

@[simp]
theorem marker?_setTopicClaim (s : Store) (topic : TopicId) (claim : Option Claim)
    (id : ReviewableId) : (s.setTopicClaim topic claim).store.marker? id = s.marker? id := by
  unfold marker?
  rw [entries_setTopicClaim, Option.map_map]
  rfl

@[simp]
theorem marker?_applyCounts (s : Store) (reviewables unseen : Option UInt64) (id : ReviewableId) :
    (s.applyCounts reviewables unseen).store.marker? id = s.marker? id := by
  unfold marker?
  rw [entries_applyCounts]

/-- Taking a marker off leaves the reviewable, now without one. -/
theorem marker?_endUpdate (s : Store) (id other : ReviewableId) :
    (s.endUpdate id).marker? other =
      if id = other then (s.marker? other).map fun _ ↦ false else s.marker? other := by
  unfold marker?
  rw [entries_endUpdate]
  split
  · rw [Option.map_map, Option.map_map]
    rfl
  · rfl

@[simp]
theorem marker?_hear_claim (s : Store) (event : ClaimTransfer) (id : ReviewableId) :
    (s.hear (.inl event)).marker? id = s.marker? id :=
  marker?_setTopicClaim s event.topic event.claim id

/-- What an event says was removed takes its marker along. -/
theorem marker?_hear_action (s : Store) (event : ActionCompleted) (id : ReviewableId) :
    (s.hear (.inr event)).marker? id = if id ∈ event.removed then none else s.marker? id := by
  change ((s.applyCounts event.count event.unseen).store.remove event.removed).store.marker? id = _
  rw [marker?_remove, marker?_applyCounts]

/-- The marker can be set where there is one that is not set. -/
theorem beginUpdate_refused_iff :
    (∃ fault, s.beginUpdate id = .error fault) ↔ s.marker? id ≠ some false := by
  unfold beginUpdate marker?
  cases s.entries[id]? with
  | none => simp
  | some e => cases hupdating : e.updating <;> simp [hupdating]

/-- A marker that can be set is set, and no other. -/
theorem marker?_beginUpdate {s' : Store} (h : s.beginUpdate id = .ok s') (other : ReviewableId) :
    s'.marker? other = if id = other then some true else s.marker? other := by
  obtain ⟨e, -, -, rfl⟩ := beginUpdate_eq_ok_iff.mp h
  unfold marker?
  rw [Std.ExtTreeMap.getElem?_insert]
  by_cases hid : id = other
  · simp [hid]
  · simp [hid]

/-- There is room for a marker where there is a reviewable. -/
theorem marker?_eq_none_iff : s.marker? id = none ↔ s.contains id = false := by
  unfold marker? contains
  rw [Option.map_eq_none_iff, ← Std.ExtTreeMap.isSome_getElem?_eq_contains]
  cases s.entries[id]? <;> simp

/-- The operation sets no marker. -/
def Unmarked (change : Store → Store) : Prop :=
  ∀ s id, (change s).isUpdating id = true → s.isUpdating id = true

/-- Whoever keeps all markers sets none. -/
theorem unmarked_of_keeps {change : Store → Store}
    (h : ∀ s id, (change s).marker? id = s.marker? id) : Unmarked change := by
  intro s id hmarked
  rwa [isUpdating_eq, h, ← isUpdating_eq] at hmarked

/-- A reviewable that comes in is not marked, and one that is there keeps its marker. -/
theorem unmarked_insert (r : Reviewable) : Unmarked fun s ↦ (s.insert r).store := by
  intro s id hmarked
  rw [isUpdating_eq, marker?_insert] at hmarked
  split at hmarked
  · exact hmarked
  · rwa [isUpdating_eq]

theorem unmarked_replaceAll (rs : List Reviewable) : Unmarked fun s ↦ (s.replaceAll rs).store := by
  intro s id hmarked
  rw [isUpdating_eq, marker?_replaceAll] at hmarked
  split at hmarked
  · exact hmarked
  · cases hmarked

theorem unmarked_remove (ids : List ReviewableId) : Unmarked fun s ↦ (s.remove ids).store := by
  intro s id hmarked
  rw [isUpdating_eq, marker?_remove] at hmarked
  split at hmarked
  · cases hmarked
  · rwa [isUpdating_eq]

theorem unmarked_refresh (r : Reviewable) : Unmarked fun s ↦ (s.refresh r).store :=
  unmarked_of_keeps fun s ↦ marker?_refresh s r

theorem unmarked_setClaim (id : ReviewableId) (claim : Option Claim) :
    Unmarked fun s ↦ (s.setClaim id claim).store :=
  unmarked_of_keeps fun s ↦ marker?_setClaim s id claim

theorem unmarked_setTopicClaim (topic : TopicId) (claim : Option Claim) :
    Unmarked fun s ↦ (s.setTopicClaim topic claim).store :=
  unmarked_of_keeps fun s ↦ marker?_setTopicClaim s topic claim

theorem unmarked_applyCounts (reviewables unseen : Option UInt64) :
    Unmarked fun s ↦ (s.applyCounts reviewables unseen).store :=
  unmarked_of_keeps fun s ↦ marker?_applyCounts s reviewables unseen

theorem Unmarked.comp {second first : Store → Store} (hsecond : Unmarked second)
    (hfirst : Unmarked first) : Unmarked fun s ↦ second (first s) :=
  fun s id hmarked ↦ hfirst s id (hsecond (first s) id hmarked)

theorem unmarked_applyActionCompleted (event : ActionCompleted) :
    Unmarked fun s ↦ (s.applyActionCompleted event).store :=
  (unmarked_remove event.removed).comp (unmarked_applyCounts event.count event.unseen)

/-- No event sets a marker. -/
theorem unmarked_hear (heard : Heard) : Unmarked (·.hear heard) := by
  cases heard with
  | inl event => exact unmarked_setTopicClaim event.topic event.claim
  | inr event => exact unmarked_applyActionCompleted event

/-- What is marked afterwards was marked before or is what was begun. -/
theorem isUpdating_beginUpdate {s' : Store} {other : ReviewableId} (h : s.beginUpdate id = .ok s')
    (marked : s'.isUpdating other = true) : other = id ∨ s.isUpdating other = true := by
  rw [isUpdating_eq, marker?_beginUpdate h] at marked
  by_cases hid : id = other
  · exact .inl hid.symm
  · rw [if_neg hid, ← isUpdating_eq] at marked
    exact .inr marked

/-- What is still marked was marked before and is something else. -/
theorem isUpdating_endUpdate {other : ReviewableId}
    (marked : (s.endUpdate id).isUpdating other = true) :
    other ≠ id ∧ s.isUpdating other = true := by
  rw [isUpdating_eq, marker?_endUpdate] at marked
  by_cases hid : id = other
  · rw [if_pos hid] at marked
    cases hmarker : s.marker? other <;> simp [hmarker] at marked
  · rw [if_neg hid, ← isUpdating_eq] at marked
    exact ⟨Ne.symm hid, marked⟩

/-- When all guards are dropped nothing is marked that one of them stood for. -/
theorem isUpdating_endUpdates {guards : List ReviewableId} {other : ReviewableId}
    (marked : (guards.foldl endUpdate s).isUpdating other = true) :
    other ∉ guards ∧ s.isUpdating other = true := by
  induction guards generalizing s with
  | nil => exact ⟨List.not_mem_nil, marked⟩
  | cons id rest ih =>
    obtain ⟨hrest, hmarked⟩ := ih marked
    obtain ⟨hid, hbefore⟩ := isUpdating_endUpdate hmarked
    exact ⟨List.not_mem_cons_of_ne_of_not_mem hid hrest, hbefore⟩

/-! ## Guards -/

/-- A store, and what guards are held for, once for each guard. -/
structure Guarded where
  store : Store
  guards : List ReviewableId

/-- What happens to a store and its guards. -/
inductive Move where
  | beginUpdate (id : ReviewableId)
  /-- Somebody lets go of a guard. -/
  | drop (id : ReviewableId)
  | insert (r : Reviewable)
  | replaceAll (rs : List Reviewable)
  | refresh (r : Reviewable)
  | remove (ids : List ReviewableId)
  | setClaim (id : ReviewableId) (claim : Option Claim)
  | setTopicClaim (topic : TopicId) (claim : Option Claim)
  | hear (heard : Heard)

/-- What a move takes in. -/
def Move.taken : Move → List ReviewableId
  | .insert r => [r.id]
  | .replaceAll rs => rs.map (·.id)
  | _ => []

namespace Guarded

variable {g : Guarded} {id : ReviewableId}

def step (g : Guarded) : Move → Guarded
  | .beginUpdate id => match g.store.beginUpdate id with
    | .ok store => ⟨store, id :: g.guards⟩
    | .error _ => g
  | .drop id => if id ∈ g.guards then ⟨g.store.endUpdate id, g.guards.erase id⟩ else g
  | .insert r => { g with store := (g.store.insert r).store }
  | .replaceAll rs => { g with store := (g.store.replaceAll rs).store }
  | .refresh r => { g with store := (g.store.refresh r).store }
  | .remove ids => { g with store := (g.store.remove ids).store }
  | .setClaim id claim => { g with store := (g.store.setClaim id claim).store }
  | .setTopicClaim topic claim => { g with store := (g.store.setTopicClaim topic claim).store }
  | .hear heard => { g with store := g.store.hear heard }

def run (g : Guarded) (moves : List Move) : Guarded := moves.foldl step g

/-- Direct use of the store sets no marker without a guard. -/
theorem marked_step {others : ReviewableId → Prop}
    (marked : ∀ id, g.store.isUpdating id = true → id ∈ g.guards ∨ others id) (move : Move) :
    ∀ id, (g.step move).store.isUpdating id = true → id ∈ (g.step move).guards ∨ others id := by
  have kept : ∀ {change : Store → Store}, Unmarked change → ∀ id,
      (change g.store).isUpdating id = true → id ∈ g.guards ∨ others id :=
    fun hunmarked id h ↦ marked id (hunmarked g.store id h)
  cases move with
  | beginUpdate target =>
    intro id hid
    unfold step at hid ⊢
    dsimp only at hid ⊢
    split at hid
    · rename_i store hbegin
      rcases isUpdating_beginUpdate hbegin hid with rfl | hbefore
      · exact .inl List.mem_cons_self
      · exact (marked id hbefore).imp_left (List.mem_cons_of_mem _)
    · exact marked id hid
  | drop target =>
    intro id hid
    unfold step at hid ⊢
    dsimp only at hid ⊢
    split at hid
    · rename_i hheld
      obtain ⟨hne, hbefore⟩ := isUpdating_endUpdate hid
      rw [if_pos hheld]
      exact (marked id hbefore).imp_left (List.mem_erase_of_ne hne).mpr
    · rename_i hnot
      rw [if_neg hnot]
      exact marked id hid
  | insert r => exact kept (unmarked_insert r)
  | replaceAll rs => exact kept (unmarked_replaceAll rs)
  | refresh r => exact kept (unmarked_refresh r)
  | remove ids => exact kept (unmarked_remove ids)
  | setClaim id claim => exact kept (unmarked_setClaim id claim)
  | setTopicClaim topic claim => exact kept (unmarked_setTopicClaim topic claim)
  | hear heard => exact kept (unmarked_hear heard)

/-- No two guards are held for one reviewable, and nobody gets a second one. -/
structure Exclusive (g : Guarded) : Prop where
  nodup : g.guards.Nodup
  refused : ∀ id ∈ g.guards, ∃ fault, g.store.beginUpdate id = .error fault

/-- The move takes in something that the store had dropped under a guard. -/
def TakesBack (g : Guarded) (move : Move) : Prop :=
  ∃ id ∈ move.taken, id ∈ g.guards ∧ g.store.contains id = false

/-! ## Steps -/

/-- A guard keeps others out where the marker is set, and where there is none. -/
theorem exclusive_iff :
    g.Exclusive ↔ g.guards.Nodup ∧ ∀ id ∈ g.guards, g.store.marker? id ≠ some false := by
  constructor
  · intro h
    exact ⟨h.nodup, fun id hid ↦ beginUpdate_refused_iff.mp (h.refused id hid)⟩
  · rintro ⟨hnodup, hmarker⟩
    exact ⟨hnodup, fun id hid ↦ beginUpdate_refused_iff.mpr (hmarker id hid)⟩

/-- What is taken in without a marker breaks the exclusion where a guard is held for it, and nothing
else does. -/
theorem Exclusive.taken_iff (h : g.Exclusive) {store : Store} {taken : List ReviewableId}
    (takes : ∀ id ∈ taken, store.marker? id = some (g.store.isUpdating id))
    (keeps : ∀ id ∉ taken, store.marker? id = none ∨ store.marker? id = g.store.marker? id) :
    Exclusive ⟨store, g.guards⟩ ↔
      ¬ ∃ id ∈ taken, id ∈ g.guards ∧ g.store.contains id = false := by
  obtain ⟨hnodup, hmarker⟩ := exclusive_iff.mp h
  rw [exclusive_iff]
  constructor
  · rintro ⟨-, hafter⟩ ⟨id, htaken, hguard, hgone⟩
    apply hafter id hguard
    rw [takes id htaken, isUpdating_eq, marker?_eq_none_iff.mpr hgone]
    rfl
  · intro hnever
    refine ⟨hnodup, fun id hguard ↦ ?_⟩
    by_cases htaken : id ∈ taken
    · have hthere : g.store.marker? id ≠ none :=
        fun hgone ↦ hnever ⟨id, htaken, hguard, marker?_eq_none_iff.mp hgone⟩
      have hset := hmarker id hguard
      rw [takes id htaken, isUpdating_eq]
      cases hid : g.store.marker? id with
      | none => exact absurd hid hthere
      | some updating => simpa [hid] using hset
    · rcases keeps id htaken with hnone | hsame
      · simp [hnone]
      · rw [hsame]
        exact hmarker id hguard

/-- Who neither marks nor unmarks anything takes no marker from a guard. -/
theorem Exclusive.keeps_iff (h : g.Exclusive) {store : Store}
    (keeps : ∀ id, store.marker? id = none ∨ store.marker? id = g.store.marker? id) :
    Exclusive ⟨store, g.guards⟩ ↔
      ¬ ∃ id ∈ ([] : List ReviewableId), id ∈ g.guards ∧ g.store.contains id = false :=
  h.taken_iff (by simp) fun id _ ↦ keeps id

/-- A guard is given out only where there is no marker, so there was no guard. -/
theorem Exclusive.beginUpdate (h : g.Exclusive) (id : ReviewableId) :
    (g.step (.beginUpdate id)).Exclusive := by
  obtain ⟨hnodup, hmarker⟩ := exclusive_iff.mp h
  unfold step
  dsimp only
  split
  · rename_i store hbegin
    have hfree : id ∉ g.guards := by
      intro hguard
      obtain ⟨fault, hfault⟩ := h.refused id hguard
      simp [hfault] at hbegin
    refine exclusive_iff.mpr ⟨List.nodup_cons.mpr ⟨hfree, hnodup⟩, fun other hother ↦ ?_⟩
    rw [marker?_beginUpdate hbegin]
    by_cases hid : id = other
    · simp [hid]
    · rw [if_neg hid]
      exact hmarker other ((List.mem_cons.mp hother).resolve_left (Ne.symm hid))
  · exact h

/-- With the guard its marker goes, and no other guard is for the same reviewable. -/
theorem Exclusive.drop (h : g.Exclusive) (id : ReviewableId) : (g.step (.drop id)).Exclusive := by
  obtain ⟨hnodup, hmarker⟩ := exclusive_iff.mp h
  unfold step
  dsimp only
  split
  · refine exclusive_iff.mpr ⟨hnodup.erase id, fun other hother ↦ ?_⟩
    obtain ⟨hne, hguard⟩ := hnodup.mem_erase_iff.mp hother
    rw [marker?_endUpdate, if_neg (Ne.symm hne)]
    exact hmarker other hguard
  · exact h

/-- A move that removes nothing takes no marker from a guard. -/
theorem not_takesBack_of_taken {move : Move} (h : move.taken = []) : ¬ g.TakesBack move := by
  rintro ⟨id, htaken, -⟩
  simp [h] at htaken

/-- The exclusion is kept by every move that takes nothing back under a guard, and by no other. -/
theorem Exclusive.step_iff (h : g.Exclusive) (move : Move) :
    (g.step move).Exclusive ↔ ¬ g.TakesBack move := by
  cases move with
  | beginUpdate id => exact iff_of_true (h.beginUpdate id) (not_takesBack_of_taken rfl)
  | drop id => exact iff_of_true (h.drop id) (not_takesBack_of_taken rfl)
  | insert r =>
    refine h.taken_iff (fun id htaken ↦ ?_) fun id htaken ↦ .inr ?_
    · rw [marker?_insert, if_pos (List.mem_singleton.mp htaken).symm]
    · rw [marker?_insert, if_neg fun hid ↦ htaken (List.mem_singleton.mpr hid.symm)]
  | replaceAll rs =>
    refine h.taken_iff (fun id htaken ↦ ?_) fun id htaken ↦ .inl ?_
    · exact (marker?_replaceAll g.store rs id).trans (if_pos htaken)
    · exact (marker?_replaceAll g.store rs id).trans (if_neg htaken)
  | refresh r => exact h.keeps_iff fun id ↦ .inr (marker?_refresh g.store r id)
  | remove ids =>
    refine h.keeps_iff fun id ↦ ?_
    rw [marker?_remove]
    exact ite_eq_or_eq _ _ _
  | setClaim id claim => exact h.keeps_iff fun _ ↦ .inr (marker?_setClaim ..)
  | setTopicClaim topic claim => exact h.keeps_iff fun _ ↦ .inr (marker?_setTopicClaim ..)
  | hear heard =>
    refine h.keeps_iff fun id ↦ ?_
    cases heard with
    | inl event => exact .inr (marker?_hear_claim g.store event id)
    | inr event =>
      rw [marker?_hear_action]
      exact ite_eq_or_eq _ _ _

/-- Without guards there is nothing to exclude. -/
theorem exclusive_of_free (store : Store) : Exclusive ⟨store, []⟩ where
  nodup := List.nodup_nil
  refused := by simp

/-- From a store that nobody holds a guard for, guards keep others out throughout a run exactly when
nothing that the store dropped under a guard is taken in before the guard is let go. -/
theorem guards_exclusive (store : Store) (moves : List Move) :
    (∀ before, before <+: moves → (run ⟨store, []⟩ before).Exclusive) ↔
      ∀ before move, before ++ [move] <+: moves → ¬ (run ⟨store, []⟩ before).TakesBack move :=
  throughout_iff step Exclusive TakesBack (fun _ move h ↦ h.step_iff move)
    (exclusive_of_free store) moves

/-- The reviewable is dropped under a guard and comes back, and a second guard is given out. -/
theorem guards_not_exclusive_after_return :
    (run ⟨Store.empty, []⟩ [.insert (.plain 1 none), .beginUpdate 1,
      .hear (.inr ⟨[1], none, none⟩), .insert (.plain 1 none), .beginUpdate 1]).guards = [1, 1] := by
  decide +kernel

end Guarded

end Store

end Moderation
