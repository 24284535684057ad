import Moderation.Proofs.Marker

/-!
# What a listener learns

A listener keeps what a store has for itself, and looks again at what it is told has changed and at
nothing else. After everything that happens to the store it has what the store has, and it is told
of no more than what became different.
-/

namespace Moderation

namespace StoreChange

/-- The reviewables that are named. -/
def named : StoreChange → List ReviewableId
  | .updated id => [id]
  | .removed ids => ids
  | .counts _ => []
  | .reloaded => []

/-- What is said to be there is there, what is said to be gone is gone, and the numbers are
these. -/
def TrueOf (s : Store) : StoreChange → Prop
  | .updated id => s.contains id = true
  | .removed ids => ids ≠ [] ∧ ∀ id ∈ ids, s.contains id = false
  | .counts numbers => numbers = s.counts
  | .reloaded => True

end StoreChange

/-- The reviewables that are named in some changes, each as often as it is. -/
def namedIn (changes : List StoreChange) : List ReviewableId := changes.flatMap (·.named)

theorem namedIn_updated (ids : List ReviewableId) :
    namedIn (ids.map StoreChange.updated) = ids := by
  unfold namedIn
  rw [List.flatMap_map]
  exact List.flatMap_singleton' ids

/-- What a listener has of a store. -/
structure Listener where
  items : Std.ExtTreeMap ReviewableId Reviewable
  counts : Counts

/-- All that there is to learn of a store. Markers are nobody else's business. -/
def Store.seen (s : Store) : Listener := ⟨s.entries.map fun _ e ↦ e.reviewable, s.counts⟩

@[simp]
theorem Store.getElem?_items_seen (s : Store) (id : ReviewableId) :
    s.seen.items[id]? = s.get? id :=
  Std.ExtTreeMap.getElem?_map

namespace Listener

variable {l : Listener} {s : Store} {id : ReviewableId} {change : StoreChange}
  {changes : List StoreChange}

/-- A listener sees a store as it is if it has every reviewable and the counts right. -/
theorem eq_seen_iff : l = s.seen ↔ (∀ id, l.items[id]? = s.get? id) ∧ l.counts = s.counts := by
  constructor
  · rintro rfl
    exact ⟨s.getElem?_items_seen, rfl⟩
  · rintro ⟨hitems, hcounts⟩
    obtain ⟨items, counts⟩ := l
    obtain rfl : items = s.seen.items :=
      Std.ExtTreeMap.ext_getElem? fun id ↦ (hitems id).trans (s.getElem?_items_seen id).symm
    obtain rfl : counts = s.counts := hcounts
    rfl

/-- Follows one change. What was updated is looked up in the store as it is by then. -/
def hear (s : Store) (l : Listener) : StoreChange → Listener
  | .updated id => { l with items := l.items.alter id fun _ ↦ s.get? id }
  | .removed ids => { l with items := l.items.filter fun id _ ↦ id ∉ ids }
  | .counts counts => { l with counts }
  | .reloaded => s.seen

/-- Follows the changes of one operation, which left the store as it is. -/
def follow (s : Store) (l : Listener) (changes : List StoreChange) : Listener :=
  changes.foldl (hear s) l

/-- A change that is true teaches the listener what it names, and misleads it about nothing. -/
theorem items_hear (truthful : change.TrueOf s)
    (known : l.items[id]? = s.get? id ∨ id ∈ change.named) :
    (l.hear s change).items[id]? = s.get? id := by
  cases change with
  | updated other =>
    change (l.items.alter other fun _ ↦ s.get? other)[id]? = _
    rw [Std.ExtTreeMap.getElem?_alter]
    by_cases hid : other = id
    · simp [hid]
    · simpa [hid, StoreChange.named, Ne.symm hid] using known
  | removed ids =>
    change (l.items.filter fun id _ ↦ id ∉ ids)[id]? = _
    rw [Std.ExtTreeMap.getElem?_filter']
    by_cases hid : id ∈ ids
    · have hgone : s.get? id = none := by
        simpa [s.contains_eq_isSome_get?] using truthful.2 id hid
      simp [hid, hgone]
    · have hknown : l.items[id]? = s.get? id := by simpa [StoreChange.named, hid] using known
      rw [hknown]
      cases s.get? id <;> simp [Option.filter, hid]
  | counts counts => simpa [hear, StoreChange.named] using known
  | reloaded => exact s.getElem?_items_seen id

/-- The counts come right with the change that tells them, and no other change spoils them. -/
theorem counts_hear (truthful : change.TrueOf s)
    (known : l.counts = s.counts ∨ ∃ counts, change = .counts counts) :
    (l.hear s change).counts = s.counts := by
  cases change with
  | updated | removed => simpa [hear] using known
  | counts counts => exact truthful
  | reloaded => rfl

/-- A reviewable is seen as it is if it was so before, or if it is named. -/
theorem items_follow (truthful : ∀ change ∈ changes, change.TrueOf s)
    (known : l.items[id]? = s.get? id ∨ id ∈ namedIn changes) :
    (l.follow s changes).items[id]? = s.get? id := by
  induction changes generalizing l with
  | nil => simpa [follow, namedIn] using known
  | cons change rest ih =>
    obtain ⟨hchange, hrest⟩ := List.forall_mem_cons.mp truthful
    apply ih hrest
    rw [namedIn, List.flatMap_cons, List.mem_append, ← or_assoc] at known
    exact known.imp_left (items_hear hchange)

/-- The counts are seen as they are if they were so before, or if they are told. -/
theorem counts_follow (truthful : ∀ change ∈ changes, change.TrueOf s)
    (known : l.counts = s.counts ∨ ∃ counts, .counts counts ∈ changes) :
    (l.follow s changes).counts = s.counts := by
  induction changes generalizing l with
  | nil => simpa [follow] using known
  | cons change rest ih =>
    obtain ⟨hchange, hrest⟩ := List.forall_mem_cons.mp truthful
    apply ih hrest
    simp only [List.mem_cons, exists_or, ← or_assoc] at known
    refine known.imp_left fun h ↦ counts_hear hchange (h.imp_right ?_)
    rintro ⟨counts, hcounts⟩
    exact ⟨counts, hcounts.symm⟩

/-- True changes that name all that differs lead from one store to the other. -/
theorem follow_seen {before : Store} (truthful : ∀ change ∈ changes, change.TrueOf s)
    (named : ∀ id, before.get? id = s.get? id ∨ id ∈ namedIn changes)
    (counted : before.counts = s.counts ∨ ∃ counts, .counts counts ∈ changes) :
    before.seen.follow s changes = s.seen := by
  rw [eq_seen_iff]
  refine ⟨fun id ↦ items_follow truthful ?_, counts_follow truthful counted⟩
  rw [Store.getElem?_items_seen]
  exact named id

end Listener

namespace Store

variable {s mid s' : Store} {id : ReviewableId} {changes : List StoreChange}

/-! ## What changes tell -/

/-- The changes tell what differs between two stores: what does is named once, and nothing else is
named. -/
structure Tells (s s' : Store) (changes : List StoreChange) : Prop where
  truthful : ∀ change ∈ changes, change.TrueOf s'
  nodup : (namedIn changes).Nodup
  named_iff : ∀ id, id ∈ namedIn changes ↔ s'.get? id ≠ s.get? id
  counts_iff : (∃ counts, .counts counts ∈ changes) ↔ s'.counts ≠ s.counts
  not_reloaded : .reloaded ∉ changes

/-- Whoever follows the changes gets from the one store to the other. -/
theorem Tells.follow (h : Tells s s' changes) : s.seen.follow s' changes = s'.seen := by
  refine Listener.follow_seen h.truthful (fun id ↦ ?_) ?_
  · rw [h.named_iff]
    exact (eq_or_ne (s'.get? id) (s.get? id)).imp_left Eq.symm
  · rw [h.counts_iff]
    exact (eq_or_ne s'.counts s.counts).imp_left Eq.symm

/-- Nothing is told exactly when there is nothing to tell. -/
theorem Tells.eq_nil_iff (h : Tells s s' changes) : changes = [] ↔ s'.seen = s.seen := by
  constructor
  · rintro rfl
    exact h.follow.symm
  · intro hsame
    obtain ⟨hitems, hcounts⟩ := Listener.eq_seen_iff.mp hsame
    simp only [getElem?_items_seen] at hitems
    have hnamed : ∀ change ∈ changes, ∀ id, id ∉ change.named := fun change hchange id hid ↦
      (h.named_iff id).mp (List.mem_flatMap.mpr ⟨change, hchange, hid⟩) (hitems id)
    rw [List.eq_nil_iff_forall_not_mem]
    intro change hchange
    cases change with
    | updated id => exact hnamed _ hchange id List.mem_cons_self
    | removed ids =>
      obtain ⟨id, hid⟩ := List.exists_mem_of_ne_nil ids (h.truthful _ hchange).1
      exact hnamed _ hchange id hid
    | counts counts => exact h.counts_iff.mp ⟨counts, hchange⟩ hcounts
    | reloaded => exact h.not_reloaded hchange

/-- Updates tell everything where a reviewable changed if and only if it is named. -/
theorem tells_updated (ids : List ReviewableId) (nodup : ids.Nodup)
    (named_iff : ∀ id, id ∈ ids ↔ s'.get? id ≠ s.get? id)
    (kept : ∀ id ∈ ids, s'.contains id = true) (counts : s'.counts = s.counts) :
    Tells s s' (ids.map .updated) where
  truthful := by simpa [StoreChange.TrueOf] using kept
  nodup := by rwa [namedIn_updated]
  named_iff := by rwa [namedIn_updated]
  counts_iff := by simp [counts]
  not_reloaded := by simp

theorem tells_refl (s : Store) : Tells s s [] :=
  tells_updated [] List.nodup_nil (by simp) (by simp) rfl

/-- The numbers change first, and then some reviewables. -/
theorem Tells.append {later : List StoreChange} (first : Tells s mid changes)
    (second : Tells mid s' later) (items : ∀ id, mid.get? id = s.get? id)
    (counts : s'.counts = mid.counts) : Tells s s' (changes ++ later) := by
  have hnone : namedIn changes = [] := by
    rw [List.eq_nil_iff_forall_not_mem]
    exact fun id hid ↦ (first.named_iff id).mp hid (items id)
  have hnamed : namedIn (changes ++ later) = namedIn later := by
    rw [namedIn, List.flatMap_append]
    exact congrArg (· ++ namedIn later) hnone
  refine ⟨?_, ?_, ?_, ?_, ?_⟩
  · intro change hchange
    rcases List.mem_append.mp hchange with hfirst | hlater
    · have htrue := first.truthful change hfirst
      have hnames : ∀ id, id ∉ change.named := fun id hid ↦ by
        have hmem : id ∈ namedIn changes := List.mem_flatMap.mpr ⟨change, hfirst, hid⟩
        simp [hnone] at hmem
      cases change with
      | updated id => exact absurd List.mem_cons_self (hnames id)
      | removed ids =>
        obtain ⟨id, hid⟩ := List.exists_mem_of_ne_nil ids htrue.1
        exact absurd hid (hnames id)
      | counts numbers => exact htrue.trans counts.symm
      | reloaded => trivial
    · exact second.truthful change hlater
  · rw [hnamed]
    exact second.nodup
  · intro id
    rw [hnamed, second.named_iff, items]
  · have hlater : ¬ ∃ counts, StoreChange.counts counts ∈ later :=
      fun h ↦ second.counts_iff.mp h counts
    simp only [not_exists] at hlater
    simp only [List.mem_append, hlater, or_false, first.counts_iff, counts]
  · simp [first.not_reloaded, second.not_reloaded]

/-- A store with another entry for one reviewable. -/
theorem get?_put (s : Store) (id other : ReviewableId) (e : Entry) :
    ({ s with entries := s.entries.insert id e } : Store).get? other =
      if id = other then some e.reviewable else s.get? other := by
  unfold get?
  rw [Std.ExtTreeMap.getElem?_insert]
  by_cases hid : id = other
  · simp [hid]
  · simp [hid]

/-- One reviewable was written over with another one. -/
theorem tells_put {e old : Entry} (found : s.entries[id]? = some old)
    (differs : e.reviewable ≠ old.reviewable) :
    Tells s { s with entries := s.entries.insert id e } [.updated id] := by
  have hold : s.get? id = some old.reviewable := by rw [get?, found, Option.map_some]
  refine tells_updated [id] (List.nodup_singleton id) (fun other ↦ ?_) ?_ rfl
  · rw [get?_put, List.mem_singleton]
    by_cases hid : id = other
    · subst other
      simp [hold, differs]
    · simp [hid, Ne.symm hid]
  · simp [contains_eq_isSome_get?, get?_put]

theorem tells_refresh (s : Store) (r : Reviewable) :
    Tells s (s.refresh r).store (s.refresh r).changes := by
  unfold refresh
  cases hold : s.entries[r.id]? with
  | none => exact s.tells_refl
  | some old =>
    dsimp only
    split
    · exact s.tells_refl
    · rename_i hsame
      apply tells_put hold
      rintro rfl
      exact hsame (Reviewable.same_refl _)

theorem tells_setClaim (s : Store) (id : ReviewableId) (claim : Option Claim) :
    Tells s (s.setClaim id claim).store (s.setClaim id claim).changes := by
  unfold setClaim
  cases hold : s.entries[id]? with
  | none => exact s.tells_refl
  | some old =>
    dsimp only
    split
    · exact s.tells_refl
    · rename_i hclaim
      apply tells_put hold
      intro hsame
      exact hclaim (congrArg Reviewable.claim hsame).symm

/-- The reviewables of a topic whose copies show another claim than the new one. -/
theorem mem_claimedElse {topic : TopicId} {claim : Option Claim} :
    id ∈ s.claimedElse topic claim ↔
      ∃ r, s.get? id = some r ∧ r.topic = some topic ∧ r.claim ≠ claim := by
  unfold claimedElse get?
  rw [Std.ExtTreeMap.mem_keys, Std.ExtTreeMap.mem_iff_isSome_getElem?,
    Std.ExtTreeMap.getElem?_filter']
  cases s.entries[id]? <;> simp [Option.filter]

/-- A new claim of a topic changes the reviewables that show another one, and nothing else. -/
theorem withTopicClaim_ne_iff {r : Reviewable} {topic : TopicId} {claim : Option Claim} :
    r.withTopicClaim topic claim ≠ r ↔ r.topic = some topic ∧ r.claim ≠ claim := by
  rw [← not_iff_not, not_not, not_and, not_not, Reviewable.withTopicClaim_frame]
  constructor
  · intro hsame htopic
    rw [← congrArg Reviewable.claim hsame, Reviewable.claim_withTopicClaim, if_pos htopic]
  · intro h
    rw [Reviewable.claim_withTopicClaim]
    split
    · rw [← h ‹_›]
    · rfl

theorem tells_setTopicClaim (s : Store) (topic : TopicId) (claim : Option Claim) :
    Tells s (s.setTopicClaim topic claim).store (s.setTopicClaim topic claim).changes := by
  refine tells_updated _ Std.ExtTreeMap.nodup_keys (fun id ↦ ?_) (fun id hid ↦ ?_) rfl
  · rw [mem_claimedElse, get?_setTopicClaim]
    cases s.get? id <;> simp [← withTopicClaim_ne_iff]
  · obtain ⟨r, hget, -⟩ := mem_claimedElse.mp hid
    rw [contains_eq_isSome_get?, get?_setTopicClaim, hget]
    rfl

/-- What is erased is what there was, each once. -/
theorem erased_eraseAll (entries : Entries) (ids : List ReviewableId) :
    (eraseAll entries ids).2.Nodup ∧
      ∀ id, id ∈ (eraseAll entries ids).2 ↔ id ∈ ids ∧ entries.contains id = true := by
  induction ids generalizing entries with
  | nil => simp [eraseAll]
  | cons first rest ih =>
    unfold eraseAll
    by_cases hfirst : entries.contains first = true
    · rw [if_pos hfirst]
      obtain ⟨hnodup, hmem⟩ := ih (entries.erase first)
      refine ⟨List.nodup_cons.mpr ⟨?_, hnodup⟩, fun id ↦ ?_⟩
      · rw [hmem]
        simp
      · rw [List.mem_cons, hmem, List.mem_cons]
        by_cases hid : id = first
        · simp [hid, hfirst]
        · simp [hid, Ne.symm hid]
    · rw [if_neg hfirst]
      obtain ⟨hnodup, hmem⟩ := ih entries
      refine ⟨hnodup, fun id ↦ ?_⟩
      rw [hmem, List.mem_cons]
      by_cases hid : id = first
      · simp [hid, hfirst]
      · simp [hid]

/-- What is given back as removed was asked for and was there. -/
theorem mem_answer_remove {ids : List ReviewableId} :
    id ∈ (s.remove ids).answer ↔ id ∈ ids ∧ s.contains id = true :=
  (erased_eraseAll s.entries ids).2 id

theorem get?_remove (s : Store) (ids : List ReviewableId) (id : ReviewableId) :
    (s.remove ids).store.get? id = if id ∈ ids then none else s.get? id := by
  unfold get?
  rw [entries_remove]
  split <;> rfl

theorem changes_remove (s : Store) (ids : List ReviewableId) :
    (s.remove ids).changes =
      if (s.remove ids).answer.isEmpty then [] else [.removed (s.remove ids).answer] := rfl

/-- A removal names what it removed, and nothing that was not there. -/
theorem namedIn_remove (s : Store) (ids : List ReviewableId) :
    namedIn (s.remove ids).changes = (s.remove ids).answer := by
  rw [changes_remove]
  cases (s.remove ids).answer <;> simp [namedIn, StoreChange.named]

theorem tells_remove (s : Store) (ids : List ReviewableId) :
    Tells s (s.remove ids).store (s.remove ids).changes where
  truthful := by
    rw [changes_remove]
    split
    · simp
    · rename_i hsome
      intro change hchange
      obtain rfl := List.mem_singleton.mp hchange
      refine ⟨by simpa using hsome, fun id hid ↦ ?_⟩
      rw [contains_eq_isSome_get?, get?_remove, if_pos (mem_answer_remove.mp hid).1]
      rfl
  nodup := by
    rw [namedIn_remove]
    exact (erased_eraseAll s.entries ids).1
  named_iff id := by
    rw [namedIn_remove, mem_answer_remove, get?_remove, contains_eq_isSome_get?]
    by_cases hid : id ∈ ids
    · cases s.get? id <;> simp [hid]
    · simp [hid]
  counts_iff := by
    have hcounts : (s.remove ids).store.counts = s.counts := rfl
    rw [changes_remove]
    split <;> simp [hcounts]
  not_reloaded := by
    rw [changes_remove]
    split <;> simp

/-- Counts are told only if they are not what they were. -/
theorem tells_applyCounts (s : Store) (reviewables unseen : Option UInt64) :
    Tells s (s.applyCounts reviewables unseen).store
      (s.applyCounts reviewables unseen).changes := by
  unfold applyCounts
  dsimp only
  split
  · exact s.tells_refl
  · rename_i hnew
    refine ⟨?_, ?_, ?_, ?_, ?_⟩
    · simp [StoreChange.TrueOf]
    · simp [namedIn, StoreChange.named]
    · simp [namedIn, StoreChange.named, get?]
    · simpa using hnew
    · simp

/-- What is told of an event. -/
def toldOf (s : Store) : Heard → List StoreChange
  | .inl event => (s.applyClaimTransfer event).changes
  | .inr event => (s.applyActionCompleted event).changes

/-- An event of the backend tells what its operation on the store tells. -/
theorem tells_hear (s : Store) (heard : Heard) : Tells s (s.hear heard) (s.toldOf heard) := by
  cases heard with
  | inl event => exact s.tells_setTopicClaim event.topic event.claim
  | inr event =>
    apply (s.tells_applyCounts event.count event.unseen).append
      ((s.applyCounts event.count event.unseen).store.tells_remove event.removed)
    · intro id
      rw [get?, get?, entries_applyCounts]
    · rfl

/-- An operation tells what it changes, and says in its answer whether it changed anything. -/
structure Honest {α : Type} (s : Store) (revision : Revision α) (reports : α → Prop) : Prop where
  tells : Tells s revision.store revision.changes
  emits_iff : revision.changes ≠ [] ↔ revision.store.seen ≠ s.seen
  reports_iff : reports revision.answer ↔ revision.store.seen ≠ s.seen

/-- An answer is honest if it says whether there was a change to tell. -/
theorem Tells.honest {α : Type} {revision : Revision α} {reports : α → Prop}
    (h : Tells s revision.store revision.changes)
    (answer : reports revision.answer ↔ revision.changes ≠ []) : s.Honest revision reports where
  tells := h
  emits_iff := not_congr h.eq_nil_iff
  reports_iff := answer.trans (not_congr h.eq_nil_iff)

theorem honest_refresh (s : Store) (r : Reviewable) : s.Honest (s.refresh r) (· = true) := by
  apply (s.tells_refresh r).honest
  unfold refresh
  cases s.entries[r.id]? with
  | none => simp
  | some old =>
    dsimp only
    split <;> simp

theorem honest_setClaim (s : Store) (id : ReviewableId) (claim : Option Claim) :
    s.Honest (s.setClaim id claim) (· = true) := by
  apply (s.tells_setClaim id claim).honest
  unfold setClaim
  cases s.entries[id]? with
  | none => simp
  | some old => by_cases hclaim : old.reviewable.claim = claim <;> simp [hclaim]

/-- The number that is given back is the number of reviewables that are named. -/
theorem answer_setTopicClaim (s : Store) (topic : TopicId) (claim : Option Claim) :
    (s.setTopicClaim topic claim).answer =
      (namedIn (s.setTopicClaim topic claim).changes).length := by
  change (s.claimedElse topic claim).length =
    (namedIn ((s.claimedElse topic claim).map .updated)).length
  rw [namedIn_updated]

theorem honest_setTopicClaim (s : Store) (topic : TopicId) (claim : Option Claim) :
    s.Honest (s.setTopicClaim topic claim) (· ≠ 0) := by
  apply (s.tells_setTopicClaim topic claim).honest
  change (s.claimedElse topic claim).length ≠ 0 ↔ (s.claimedElse topic claim).map _ ≠ []
  simp

theorem honest_remove (s : Store) (ids : List ReviewableId) :
    s.Honest (s.remove ids) (· ≠ []) := by
  apply (s.tells_remove ids).honest
  rw [changes_remove]
  cases (s.remove ids).answer <;> simp

theorem honest_applyCounts (s : Store) (reviewables unseen : Option UInt64) :
    s.Honest (s.applyCounts reviewables unseen) (· = true) := by
  apply (s.tells_applyCounts reviewables unseen).honest
  unfold applyCounts
  dsimp only
  split <;> simp

/-! ## Runs -/

/-- What happens to a store: what those who use it do, and the numbers that the backend reports. -/
inductive Occurrence where
  | used (move : Move)
  | counted (reviewables unseen : Option UInt64)

namespace Occurrence

/-- What listeners are told. -/
def told (s : Store) : Occurrence → List StoreChange
  | .used (.beginUpdate _) => []
  | .used (.drop _) => []
  | .used (.insert r) => (s.insert r).changes
  | .used (.replaceAll rs) => (s.replaceAll rs).changes
  | .used (.refresh r) => (s.refresh r).changes
  | .used (.remove ids) => (s.remove ids).changes
  | .used (.setClaim id claim) => (s.setClaim id claim).changes
  | .used (.setTopicClaim topic claim) => (s.setTopicClaim topic claim).changes
  | .used (.hear heard) => s.toldOf heard
  | .counted reviewables unseen => (s.applyCounts reviewables unseen).changes

def apply (g : Guarded) : Occurrence → Guarded
  | .used move => g.step move
  | .counted reviewables unseen =>
    { g with store := (g.store.applyCounts reviewables unseen).store }

end Occurrence

/-- A store with its guards, and a listener that follows it. -/
structure Watched where
  guarded : Guarded
  listener : Listener

namespace Watched

def step (w : Watched) (o : Occurrence) : Watched :=
  let g := o.apply w.guarded
  ⟨g, w.listener.follow g.store (o.told w.guarded.store)⟩

def run (w : Watched) (os : List Occurrence) : Watched := os.foldl step w

end Watched

/-- An insertion is told as an update, whether the reviewable was there or not. -/
theorem follow_insert (s : Store) (r : Reviewable) :
    s.seen.follow (s.insert r).store (s.insert r).changes = (s.insert r).store.seen := by
  have hget (id : ReviewableId) := s.get?_put r.id id (s.entry r)
  refine Listener.follow_seen (fun change hchange ↦ ?_) (fun id ↦ ?_) (.inl rfl)
  · obtain rfl := List.mem_singleton.mp hchange
    change (s.insert r).store.contains r.id = true
    rw [contains_eq_isSome_get?]
    exact congrArg Option.isSome ((hget r.id).trans (if_pos rfl))
  · by_cases hid : r.id = id
    · exact .inr (hid ▸ List.mem_cons_self)
    · exact .inl ((hget id).trans (if_neg hid)).symm

/-- Nothing needs to be told of a marker. -/
theorem seen_eq_of_get? (items : ∀ id, s'.get? id = s.get? id) (counts : s'.counts = s.counts) :
    s.seen = s'.seen :=
  Listener.eq_seen_iff.mpr ⟨fun id ↦ (s.getElem?_items_seen id).trans (items id).symm, counts.symm⟩

/-- Whatever happens, a listener that had what the store has learns what it has then. -/
theorem follow_told (g : Guarded) (o : Occurrence) :
    g.store.seen.follow (o.apply g).store (o.told g.store) = (o.apply g).store.seen := by
  cases o with
  | counted reviewables unseen => exact (g.store.tells_applyCounts reviewables unseen).follow
  | used move => cases move with
    | beginUpdate id =>
      change g.store.seen = (g.step (.beginUpdate id)).store.seen
      unfold Guarded.step
      dsimp only
      split
      · rename_i hbegin
        exact seen_eq_of_get? (get?_beginUpdate hbegin) (counts_beginUpdate hbegin)
      · rfl
    | drop id =>
      change g.store.seen = (g.step (.drop id)).store.seen
      unfold Guarded.step
      dsimp only
      split
      · exact seen_eq_of_get? (g.store.get?_endUpdate id) rfl
      · rfl
    | insert r => exact g.store.follow_insert r
    | replaceAll rs => rfl
    | refresh r => exact (g.store.tells_refresh r).follow
    | remove ids => exact (g.store.tells_remove ids).follow
    | setClaim id claim => exact (g.store.tells_setClaim id claim).follow
    | setTopicClaim topic claim => exact (g.store.tells_setTopicClaim topic claim).follow
    | hear heard => exact (g.store.tells_hear heard).follow

/-- Through a whole run a listener that hears every change sees the store as it is. -/
theorem Watched.listener_run (w : Watched) (known : w.listener = w.guarded.store.seen)
    (os : List Occurrence) : (w.run os).listener = (w.run os).guarded.store.seen := by
  induction os generalizing w with
  | nil => exact known
  | cons o rest ih =>
    apply ih (w.step o)
    change w.listener.follow (o.apply w.guarded).store (o.told w.guarded.store) = _
    rw [known]
    exact follow_told w.guarded o

/-- After everything that happens to a store a listener that follows what it is told has what the
store has. What is told, and what the operations answer, is what became different, each
reviewable once. -/
theorem listeners_learn_all_and_no_more :
    (∀ (g : Guarded) (os : List Occurrence), let w := Watched.run ⟨g, g.store.seen⟩ os
      w.listener = w.guarded.store.seen) ∧
    ∀ s : Store,
      (∀ r, s.Honest (s.refresh r) (· = true)) ∧
      (∀ ids, s.Honest (s.remove ids) (· ≠ []) ∧
        (s.remove ids).answer = namedIn (s.remove ids).changes) ∧
      (∀ id claim, s.Honest (s.setClaim id claim) (· = true)) ∧
      (∀ topic claim, s.Honest (s.setTopicClaim topic claim) (· ≠ 0) ∧
        (s.setTopicClaim topic claim).answer =
          (namedIn (s.setTopicClaim topic claim).changes).length) ∧
      ∀ reviewables unseen, s.Honest (s.applyCounts reviewables unseen) (· = true) := by
  refine ⟨fun g os ↦ Watched.listener_run ⟨g, g.store.seen⟩ rfl os, fun s ↦ ⟨s.honest_refresh,
    fun ids ↦ ⟨s.honest_remove ids, (s.namedIn_remove ids).symm⟩, s.honest_setClaim,
    fun topic claim ↦ ⟨s.honest_setTopicClaim topic claim, s.answer_setTopicClaim topic claim⟩,
    s.honest_applyCounts⟩⟩

end Store

end Moderation
