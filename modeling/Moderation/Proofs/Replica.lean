import Moderation.Proofs.Store

/-!
# Stores that follow the queue

A session takes what it is told from two channels, one of claims and one of actions, in any order
between the two. Neither undoes what the other does, and hearing the end of a channel again does no
harm; so a store that was loaded at some point of a run and then hears both channels to the end, from
there or from before, has in the end what the queue has, up to edits that nobody is told of.
-/

namespace Moderation

/-- What a session takes from one of its channels. -/
abbrev Heard := ClaimTransfer ⊕ ActionCompleted

def heardTransfers (heard : List Heard) : List ClaimTransfer := heard.filterMap Sum.getLeft?

def heardCompletions (heard : List Heard) : List ActionCompleted := heard.filterMap Sum.getRight?

namespace Store

variable {s : Store} {id : ReviewableId}

def hear (s : Store) : Heard → Store
  | .inl event => (s.applyClaimTransfer event).store
  | .inr event => (s.applyActionCompleted event).store

def hearAll (s : Store) (heard : List Heard) : Store := heard.foldl hear s

namespace Entry

/-- The entry with the claim that some events leave on its reviewable. -/
def shown (e : Entry) (events : List ClaimTransfer) : Entry :=
  { e with reviewable := { e.reviewable with claim := Queue.shownAfter e.reviewable events } }

theorem shown_nil (e : Entry) : e.shown [] = e := by
  simp [shown]

theorem shown_shown (e : Entry) (first rest : List ClaimTransfer) :
    (e.shown first).shown rest = e.shown (first ++ rest) := by
  have hclaim : Queue.shownAfter (e.shown first).reviewable rest =
      Queue.shownAfter e.reviewable (first ++ rest) :=
    Queue.shownAfter_append (r := e.reviewable) (s := (e.shown first).reviewable) rfl rfl rest
  unfold shown at hclaim ⊢
  rw [hclaim]

theorem shown_singleton (e : Entry) (event : ClaimTransfer) :
    e.shown [event] =
      { e with reviewable := e.reviewable.withTopicClaim event.topic event.claim } := by
  unfold shown
  rw [Reviewable.withTopicClaim_frame, Queue.claim_withTopicClaim_eq_shownAfter]

end Entry

theorem entries_hear_claim (s : Store) (event : ClaimTransfer) (id : ReviewableId) :
    (s.hear (.inl event)).entries[id]? = s.entries[id]?.map (·.shown [event]) := by
  change (s.setTopicClaim event.topic event.claim).store.entries[id]? = _
  rw [entries_setTopicClaim]
  congr 1
  funext e
  rw [Entry.shown_singleton]

theorem entries_hear_action (s : Store) (event : ActionCompleted) (id : ReviewableId) :
    (s.hear (.inr event)).entries[id]? = if id ∈ event.removed then none else s.entries[id]? := by
  change ((s.applyCounts event.count event.unseen).store.remove event.removed).store.entries[id]? = _
  rw [entries_remove, entries_applyCounts]

/-- The order between the channels makes no difference to an entry. -/
theorem entries_hearAll (s : Store) (heard : List Heard) (id : ReviewableId) :
    (s.hearAll heard).entries[id]? =
      if id ∈ removals (heardCompletions heard) then none
      else s.entries[id]?.map (·.shown (heardTransfers heard)) := by
  induction heard generalizing s with
  | nil =>
    have hid : (fun e : Entry ↦ e.shown []) = fun e ↦ e := funext Entry.shown_nil
    simp [hearAll, heardCompletions, heardTransfers, removals, hid]
  | cons first rest ih =>
    change ((s.hear first).hearAll rest).entries[id]? = _
    rw [ih]
    cases first with
    | inl event =>
      have hshown : (fun e : Entry ↦ e.shown (heardTransfers (.inl event :: rest))) =
          (·.shown (heardTransfers rest)) ∘ (·.shown [event]) :=
        funext fun e ↦ (e.shown_shown [event] (heardTransfers rest)).symm
      rw [entries_hear_claim, Option.map_map, hshown]
      rfl
    | inr event =>
      have hremovals : removals (heardCompletions (.inr event :: rest)) =
          event.removed ++ removals (heardCompletions rest) := rfl
      have htransfers : heardTransfers (.inr event :: rest) = heardTransfers rest := rfl
      rw [entries_hear_action, hremovals, htransfers]
      by_cases hremoved : id ∈ event.removed
      · simp [hremoved]
      · simp [hremoved]

end Store

namespace Queue

variable {q : Queue} {id : ReviewableId} {r : Reviewable} {before after : List Operation}
  {heard : List Heard}

/-- What a reviewable shows after it heard some events is not changed by hearing the last of them
again. -/
theorem shownAfter_replay {first : Reviewable} {known again : List ClaimTransfer}
    (htopic : r.topic = first.topic) (hclaim : r.claim = shownAfter first known)
    (h : again <:+ known) (rest : List ClaimTransfer) :
    shownAfter r (again ++ rest) = shownAfter r rest := by
  rw [shownAfter_append htopic hclaim, shownAfter_append htopic hclaim]
  unfold shownAfter
  cases first.topic with
  | none => rfl
  | some topic =>
    calc claimAfter topic first.claim (known ++ (again ++ rest))
      _ = claimAfter topic (claimAfter topic first.claim (known ++ again)) rest := by
        rw [← List.append_assoc, claimAfter_append]
      _ = claimAfter topic (claimAfter topic first.claim known) rest := by
        rw [claimAfter_replay topic first.claim h]
      _ = claimAfter topic first.claim (known ++ rest) := by
        rw [claimAfter_append]

/-- A session that loaded the queue between two parts of a run hears, from each channel, the end of
what is told in the run, from the time of the load or from before. -/
structure CatchesUp (q : Queue) (before after : List Operation) (heard : List Heard) : Prop where
  transfers : heardTransfers heard <:+ transfers (q.broadcast (before ++ after))
  laterTransfers : Moderation.transfers ((q.run before).broadcast after) <:+ heardTransfers heard
  completions : heardCompletions heard <:+ completions (q.broadcast (before ++ after))
  laterCompletions :
    Moderation.completions ((q.run before).broadcast after) <:+ heardCompletions heard

theorem eq_append_of_suffix {α : Type} {all earlier later : List α} (h : all <:+ earlier ++ later)
    (hlater : later <:+ all) : ∃ again, again <:+ earlier ∧ all = again ++ later := by
  obtain ⟨again, rfl⟩ := hlater
  obtain ⟨missed, hmissed⟩ := h
  rw [← List.append_assoc] at hmissed
  exact ⟨again, ⟨missed, List.append_cancel_right hmissed⟩, rfl⟩

theorem CatchesUp.heardTransfers_eq (h : q.CatchesUp before after heard) :
    ∃ again, again <:+ Moderation.transfers (q.broadcast before) ∧
      heardTransfers heard = again ++ Moderation.transfers ((q.run before).broadcast after) := by
  have hsuffix := h.transfers
  rw [broadcast_append, transfers_append] at hsuffix
  exact eq_append_of_suffix hsuffix h.laterTransfers

theorem CatchesUp.heardCompletions_eq (h : q.CatchesUp before after heard) :
    ∃ again, again <:+ Moderation.completions (q.broadcast before) ∧
      heardCompletions heard =
        again ++ Moderation.completions ((q.run before).broadcast after) := by
  have hsuffix := h.completions
  rw [broadcast_append, completions_append] at hsuffix
  exact eq_append_of_suffix hsuffix h.laterCompletions

theorem mem_removals_of_suffix {known again : List ActionCompleted} (h : again <:+ known)
    (hid : id ∈ removals again) : id ∈ removals known := by
  obtain ⟨earlier, rfl⟩ := h
  rw [removals_append]
  exact List.mem_append_right _ hid

/-- The entry of a reviewable in a store that was loaded between two parts of a run and caught up
with the second. -/
theorem entries_caughtUp (keyed : q.Keyed) (closed : Closed before)
    (h : q.CatchesUp before after heard) (store : Store)
    (found : (q.run before).items[id]? = some r) :
    ((store.replaceAll (q.run before).pending).store.hearAll heard).entries[id]? =
      if r.isPending = true ∧ id ∉ removals (completions ((q.run before).broadcast after)) then
        some ⟨{ r with
          claim := shownAfter r (transfers ((q.run before).broadcast after)) }, store.isUpdating id⟩
      else none := by
  cases hfirst : q.items[id]? with
  | none => simp [missing_run hfirst closed] at found
  | some first =>
    obtain ⟨r', hr', hfollows⟩ := follows_run hfirst closed
    obtain rfl : r' = r := by simpa [hr'] using found
    obtain ⟨againTransfers, hagain, htransfers⟩ := h.heardTransfers_eq
    obtain ⟨againCompletions, hagain', hcompletions⟩ := h.heardCompletions_eq
    rw [Store.entries_hearAll, Store.entries_replaceAll_pending (keyed.run before),
      getElem?_pendingItems, found, htransfers, hcompletions, removals_append]
    by_cases hpending : r'.isPending = true
    · have hnew : id ∉ removals againCompletions :=
        fun hid ↦ (hfollows.pending.mp hpending).2 (mem_removals_of_suffix hagain' hid)
      have hclaim := shownAfter_replay hfollows.topic hfollows.claim hagain
        (transfers ((q.run before).broadcast after))
      by_cases hremoved : id ∈ removals (completions ((q.run before).broadcast after))
      · simp [hremoved]
      · simp [hpending, hnew, hremoved, Store.Entry.shown, hclaim]
    · simp [hpending]

/-- Where only actions may have been accepted for a reviewable that is still pending, nothing was. -/
theorem accepted_eq_nil {ops : List Operation} {s : Reviewable} (found : q.items[id]? = some r)
    (closed : Closed ops) (resolving : ∀ change ∈ q.accepted id ops, change.resolves = true)
    (found' : (q.run ops).items[id]? = some s) (pending : s.isPending = true) :
    q.accepted id ops = [] := by
  by_contra hne
  obtain ⟨change, hchange⟩ := List.exists_mem_of_ne_nil _ hne
  obtain ⟨s', hs', hresolved⟩ := (resolving_run found (closed.neverInserted id)).2
    ⟨change, hchange, resolving change hchange⟩
  obtain rfl : s' = s := by simpa [hs'] using found'
  simp [hresolved] at pending

/-- What a store that caught up has of a reviewable is what the queue has in the end, as long as it
is pending; only edits were not heard of. -/
theorem get?_caughtUp (keyed : q.Keyed) (closed : Closed (before ++ after))
    (h : q.CatchesUp before after heard) (store : Store) (id : ReviewableId) :
    (((store.replaceAll (q.run before).pending).store.hearAll heard).get? id = none ∧
        (q.run (before ++ after)).pendingItems[id]? = none) ∨
      ∃ copy s, ((store.replaceAll (q.run before).pending).store.hearAll heard).get? id =
          some copy ∧ (q.run (before ++ after)).pendingItems[id]? = some s ∧
        copy.claim = s.claim ∧
        ((∀ change ∈ (q.run before).accepted id after, change.resolves = true) → copy = s) := by
  have hbefore : Closed before := fun new hop ↦ closed new (List.mem_append_left after hop)
  have hafter : Closed after := fun new hop ↦ closed new (List.mem_append_right before hop)
  rw [run_append, Store.get?]
  cases hr : (q.run before).items[id]? with
  | none =>
    refine .inl ⟨?_, ?_⟩
    · rw [Store.entries_hearAll, Store.entries_replaceAll_pending (keyed.run before),
        getElem?_pendingItems, hr]
      simp
    · rw [getElem?_pendingItems, missing_run hr hafter]
      rfl
  | some r =>
    obtain ⟨s, hs, hfollows⟩ := follows_run hr hafter
    rw [entries_caughtUp keyed hbefore h store hr, getElem?_pendingItems, hs]
    by_cases hpending : s.isPending = true
    · refine .inr ⟨{ r with claim := s.claim }, s, ?_, by simp [hpending], rfl, ?_⟩
      · rw [if_pos (hfollows.pending.mp hpending), ← hfollows.claim]
        rfl
      · intro hresolving
        have hnone := accepted_eq_nil hr hafter hresolving hs hpending
        obtain ⟨s', hs', hsame⟩ := unchanged_run hr (hafter.neverInserted id) hnone
        obtain rfl : s' = s := by simpa [hs'] using hs
        exact hsame.symm
    · refine .inl ⟨?_, by simp [hpending]⟩
      rw [if_neg (hpending ∘ hfollows.pending.mpr)]
      rfl

/-- Stores converge to the queue. -/
theorem replicas_converge (reachable : q.Reachable) (closed : Closed (before ++ after))
    (h : q.CatchesUp before after heard) (store : Store) :
    let final := q.run (before ++ after)
    let replica := (store.replaceAll (q.run before).pending).store.hearAll heard
    replica.ids = final.pending.map (·.id) ∧
      ∀ id copy, replica.get? id = some copy → ∃ s, final.items[id]? = some s ∧
        copy.claim = s.claim ∧
        ((∀ change ∈ (q.run before).accepted id after, change.resolves = true) → copy = s) := by
  intro final replica
  have hcopy := get?_caughtUp reachable.keyed closed h store
  constructor
  · rw [(reachable.keyed.run (before ++ after)).map_id_pending]
    apply keys_eq_of_isSome_eq
    intro id
    have hsome : replica.entries[id]?.isSome = (replica.get? id).isSome := by
      rw [Store.get?, Option.isSome_map]
    rw [hsome]
    rcases hcopy id with ⟨hnone, hnone'⟩ | ⟨copy, s, hget, hs, -⟩
    · rw [hnone, hnone']
    · rw [hget, hs]
      rfl
  · intro id copy hget
    rcases hcopy id with ⟨hnone, -⟩ | ⟨copy', s, hget', hs, hclaim, hsame⟩
    · exact absurd (hnone.symm.trans hget) (by simp)
    · obtain rfl : copy' = copy := Option.some.inj (hget'.symm.trans hget)
      exact ⟨s, (getElem?_pendingItems_eq_some_iff.mp hs).1, hclaim, hsame⟩

/-- Both channels are heard from the start of the run, the actions first, and the store was loaded in
the middle of it. -/
theorem replicas_converge_actions_first :
    let q := (empty .optional).run
      [.insert (.plain 1 (some 10)), .insert (.plain 2 (some 10)), .insert (.plain 3 (some 20))]
    let before := [.request .alice (.claim 10 false), .request .alice (.perform 1 "ignore" 0 ∅)]
    let after := [.request .alice (.release 10 false), .request .bob (.claim 20 false),
      .request .bob (.perform 2 "approve_post" 0 ∅)]
    let events := q.broadcast (before ++ after)
    let heard := (completions events).map .inr ++ (transfers events).map .inl
    let replica := (Store.empty.replaceAll (q.run before).pending).store.hearAll heard
    q.Reachable ∧ Closed (before ++ after) ∧ q.CatchesUp before after heard ∧
      replica.ids = [3] ∧ replica.get? 3 = (q.run (before ++ after)).items[(3 : ReviewableId)]? := by
  intro q before after events heard replica
  have reachable : q.Reachable := ⟨.optional, _, rfl⟩
  have closed : Closed (before ++ after) := by simp [Closed, before, after]
  have caughtUp : q.CatchesUp before after heard :=
    ⟨by decide +kernel, by decide +kernel, by decide +kernel, by decide +kernel⟩
  obtain ⟨hids, hcopies⟩ := replicas_converge reachable closed caughtUp Store.empty
  have hpending : (q.run (before ++ after)).pending.map (·.id) = [3] := by decide +kernel
  refine ⟨reachable, closed, caughtUp, hids.trans hpending, ?_⟩
  have hnone : (q.run before).accepted 3 after = [] := by decide +kernel
  have hsome : (replica.get? 3).isSome = true := by decide +kernel
  obtain ⟨copy, hget⟩ := Option.isSome_iff_exists.mp hsome
  obtain ⟨s, hs, -, hsame⟩ := hcopies 3 copy hget
  rw [hget, hs, hsame (by simp [hnone])]

end Queue

end Moderation
