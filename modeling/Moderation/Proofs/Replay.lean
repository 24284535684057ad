import Moderation.Proofs.Replica
import Moderation.Proofs.Specimen

/-!
# Events that come in any order, and again

What a store comes to depends on what it hears from each channel and not on how the channels
interleave. The last event of a topic decides its claim, the last number that is given is the one
that counts, and what is removed stays away; so the end of what was heard can be heard once more,
and nothing changes and nothing is removed.
-/

namespace Moderation

/-- The number that is known after some reports, each of which may leave it out. -/
def latest (known : Option UInt64) (reports : List (Option UInt64)) : Option UInt64 :=
  reports.foldl (fun old new ↦ new.or old) known

theorem latest_append (known : Option UInt64) (first rest : List (Option UInt64)) :
    latest known (first ++ rest) = latest (latest known first) rest := List.foldl_append

/-- What was known before counts only if nothing is reported. -/
theorem latest_eq_or (known : Option UInt64) (reports : List (Option UInt64)) :
    latest known reports = (latest none reports).or known := by
  induction reports generalizing known with
  | nil => rfl
  | cons new rest ih =>
    calc latest known (new :: rest)
      _ = (latest none rest).or (new.or known) := ih (new.or known)
      _ = ((latest none rest).or (new.or none)).or known := by
        rw [Option.or_none, Option.or_assoc]
      _ = (latest none (new :: rest)).or known := by
        rw [← ih (new.or none)]
        rfl

/-- What was reported last is reported again, so it stays the latest. -/
theorem latest_replay (known : Option UInt64) {reports again : List (Option UInt64)}
    (h : again <:+ reports) : latest known (reports ++ again) = latest known reports := by
  obtain ⟨earlier, rfl⟩ := h
  rw [latest_append, latest_append, latest_eq_or (latest (latest known earlier) again),
    latest_eq_or (latest known earlier), ← Option.or_assoc, Option.or_self]

namespace Counts

def after (counts : Counts) (events : List ActionCompleted) : Counts where
  reviewables := latest counts.reviewables (events.map (·.count))
  unseen := latest counts.unseen (events.map (·.unseen))

theorem after_append (counts : Counts) (first rest : List ActionCompleted) :
    counts.after (first ++ rest) = (counts.after first).after rest := by
  simp [after, latest_append]

theorem after_replay (counts : Counts) {events again : List ActionCompleted}
    (h : again <:+ events) : (counts.after events).after again = counts.after events := by
  rw [← after_append]
  simp only [after, List.map_append]
  rw [latest_replay _ (h.map (·.count)), latest_replay _ (h.map (·.unseen))]

end Counts

/-- What was heard is one way of hearing two channels, each in its order. -/
structure Merges (transfers : List ClaimTransfer) (completions : List ActionCompleted)
    (heard : List Heard) : Prop where
  transfers_eq : heardTransfers heard = transfers
  completions_eq : heardCompletions heard = completions

namespace Store

variable {s : Store} {heard again : List Heard}

theorem ext_entries {t : Store} (entries : ∀ id : ReviewableId, s.entries[id]? = t.entries[id]?)
    (counts : s.counts = t.counts) : s = t := by
  obtain ⟨left, known⟩ := s
  obtain ⟨right, known'⟩ := t
  obtain rfl : left = right := Std.ExtTreeMap.ext_getElem? fun id ↦ entries id
  obtain rfl : known = known' := counts
  rfl

theorem counts_hear_action (s : Store) (event : ActionCompleted) :
    (s.hear (.inr event)).counts = s.counts.after [event] :=
  counts_applyCounts s event.count event.unseen

/-- The counts depend on the completions only. -/
theorem counts_hearAll (s : Store) (heard : List Heard) :
    (s.hearAll heard).counts = s.counts.after (heardCompletions heard) := by
  induction heard generalizing s with
  | nil => rfl
  | cons first rest ih =>
    change ((s.hear first).hearAll rest).counts = _
    rw [ih]
    cases first with
    | inl event => rfl
    | inr event =>
      rw [counts_hear_action, ← Counts.after_append]
      rfl

/-- How the events of the two channels were merged does not matter. -/
theorem hearAll_eq_of_merges {transfers : List ClaimTransfer}
    {completions : List ActionCompleted} {other : List Heard}
    (h : Merges transfers completions heard) (h' : Merges transfers completions other) :
    s.hearAll heard = s.hearAll other := by
  apply ext_entries
  · intro id
    rw [entries_hearAll, entries_hearAll, h.transfers_eq, h.completions_eq, h'.transfers_eq,
      h'.completions_eq]
  · rw [counts_hearAll, counts_hearAll, h.completions_eq, h'.completions_eq]

theorem Entry.shown_replay (e : Entry) {events again : List ClaimTransfer}
    (h : again <:+ events) : (e.shown events).shown again = e.shown events := by
  rw [shown_shown]
  unfold shown Queue.shownAfter
  cases e.reviewable.topic with
  | none => rfl
  | some topic => simp only [claimAfter_replay topic e.reviewable.claim h]

/-- To hear the last events again changes nothing. -/
theorem hearAll_replay (s : Store) (h : again <:+ heard) :
    (s.hearAll heard).hearAll again = s.hearAll heard := by
  have htransfers : heardTransfers again <:+ heardTransfers heard := h.filterMap _
  have hcompletions : heardCompletions again <:+ heardCompletions heard := h.filterMap _
  apply ext_entries
  · intro id
    rw [entries_hearAll (s.hearAll heard), entries_hearAll s heard]
    by_cases hknown : id ∈ removals (heardCompletions heard)
    · simp [hknown]
    · have hagain : id ∉ removals (heardCompletions again) :=
        fun hid ↦ hknown (Queue.mem_removals_of_suffix hcompletions hid)
      rw [if_neg hknown, if_neg hagain, Option.map_map]
      congr 1
      funext e
      exact e.shown_replay htransfers
  · rw [counts_hearAll, counts_hearAll, Counts.after_replay s.counts hcompletions]

/-- The reviewables that an event is reported to remove. -/
def dropped (s : Store) : Heard → List ReviewableId
  | .inl _ => []
  | .inr event => (s.applyActionCompleted event).answer

/-- What the listeners are told of an event. -/
def changes (s : Store) : Heard → List StoreChange
  | .inl event => (s.applyClaimTransfer event).changes
  | .inr event => (s.applyActionCompleted event).changes

/-- Nothing is reported as removed while some events are heard, to whoever applies them or to the
listeners. -/
def DropsNothing (s : Store) : List Heard → Prop
  | [] => True
  | first :: rest =>
    s.dropped first = [] ∧ (∀ ids, .removed ids ∉ s.changes first) ∧
      (s.hear first).DropsNothing rest

theorem eraseAll_of_missing {entries : Entries} {ids : List ReviewableId}
    (missing : ∀ id ∈ ids, entries[id]? = none) : eraseAll entries ids = (entries, []) := by
  induction ids with
  | nil => rfl
  | cons first rest ih =>
    have hfirst : entries.contains first = false := by
      rw [← Std.ExtTreeMap.isSome_getElem?_eq_contains, missing first List.mem_cons_self]
      rfl
    unfold eraseAll
    rw [if_neg (by simp [hfirst])]
    exact ih fun id hid ↦ missing id (List.mem_cons_of_mem _ hid)

theorem removed_notMem_applyCounts (s : Store) (reviewables unseen : Option UInt64)
    (ids : List ReviewableId) : .removed ids ∉ (s.applyCounts reviewables unseen).changes := by
  unfold applyCounts
  dsimp only
  split <;> simp

/-- If nothing of what is removed is there, nothing is dropped. -/
theorem dropsNothing_of_missing
    (missing : ∀ id ∈ removals (heardCompletions heard), s.entries[id]? = none) :
    s.DropsNothing heard := by
  induction heard generalizing s with
  | nil => trivial
  | cons first rest ih =>
    cases first with
    | inl event =>
      refine ⟨rfl, fun ids hids ↦ ?_, ih fun id hid ↦ ?_⟩
      · obtain ⟨id, -, hid⟩ := List.mem_map.mp hids
        cases hid
      · rw [entries_hear_claim, missing id hid]
        rfl
    | inr event =>
      have hremoved : ∀ id ∈ event.removed, s.entries[id]? = none :=
        fun id hid ↦ missing id (List.mem_append_left _ hid)
      have herase := eraseAll_of_missing hremoved
      refine ⟨?_, fun ids hids ↦ ?_, ih fun id hid ↦ ?_⟩
      · simp [dropped, applyActionCompleted, remove, herase]
      · simp [changes, applyActionCompleted, remove, herase, removed_notMem_applyCounts] at hids
      · rw [entries_hear_action, missing id (List.mem_append_right _ hid), ite_self]

/-- What was removed is not there to be removed again. -/
theorem dropsNothing_replay (s : Store) (h : again <:+ heard) :
    (s.hearAll heard).DropsNothing again := by
  apply dropsNothing_of_missing
  intro id hid
  have hknown : id ∈ removals (heardCompletions heard) :=
    Queue.mem_removals_of_suffix (h.filterMap _) hid
  rw [entries_hearAll, if_pos hknown]

/-- However two channels interleave, a store comes to the same; and hearing the end of what was
heard once more changes nothing and removes nothing. -/
theorem events_confluent_and_replayable (s : Store) :
    (∀ transfers completions heard other, Merges transfers completions heard →
      Merges transfers completions other → s.hearAll heard = s.hearAll other) ∧
      ∀ heard again, again <:+ heard →
        (s.hearAll heard).hearAll again = s.hearAll heard ∧
          (s.hearAll heard).DropsNothing again :=
  ⟨fun _ _ _ _ h h' ↦ hearAll_eq_of_merges h h',
    fun _ _ h ↦ ⟨s.hearAll_replay h, s.dropsNothing_replay h⟩⟩

/-- One channel before the other or one event about, and then all but the first event again. -/
theorem events_confluent_and_replayable_channel_by_channel :
    let s := ((Store.empty.replaceAll
      [.plain 1 (some 10), .plain 2 (some 10), .plain 3 (some 20)]).store)
    let transfers : List ClaimTransfer :=
      [.taken 10 ⟨.alice, false⟩, .taken 10 ⟨.bob, true⟩, .released 20]
    let completions : List ActionCompleted := [⟨[1, 9, 1], some 5, none⟩, ⟨[3], none, some 1⟩]
    let heard : List Heard := completions.map .inr ++ transfers.map .inl
    let other : List Heard := [.inl (.taken 10 ⟨.alice, false⟩), .inr ⟨[1, 9, 1], some 5, none⟩,
      .inl (.taken 10 ⟨.bob, true⟩), .inr ⟨[3], none, some 1⟩, .inl (.released 20)]
    Merges transfers completions heard ∧ Merges transfers completions other ∧
      s.hearAll heard = s.hearAll other ∧ other.tail <:+ other ∧
      (s.hearAll other).hearAll other.tail = s.hearAll heard ∧
      (s.hearAll other).DropsNothing other.tail ∧
      (s.hearAll other).snapshot.map (fun r ↦ (r.id, r.claim)) = [(2, some ⟨.bob, true⟩)] := by
  intro s transfers completions heard other
  obtain ⟨hconfluent, hreplay⟩ := events_confluent_and_replayable s
  have hheard : Merges transfers completions heard := ⟨rfl, rfl⟩
  have hother : Merges transfers completions other := ⟨rfl, rfl⟩
  have hsame : s.hearAll heard = s.hearAll other := hconfluent _ _ _ _ hheard hother
  obtain ⟨hagain, hnothing⟩ := hreplay other other.tail (List.tail_suffix other)
  exact ⟨hheard, hother, hsame, List.tail_suffix other, hagain.trans hsame.symm, hnothing,
    by decide +kernel⟩

end Store

end Moderation
