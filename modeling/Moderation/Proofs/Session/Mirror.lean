import Moderation.Proofs.Queue.Agreement
import Moderation.Proofs.Store

/-!
# The mirror

A store mirrors a queue when it has exactly what is pending there, each reviewable with all its
attributes, and knows no other count of it. Whatever the queue grants, a store that takes the answer
over is a mirror again; this holds as long as the queue shows the claim of a topic on everything in
the topic, which no request changes.
-/

namespace Moderation

namespace Queue

variable {q q' base : Queue} {actor : User} {request : Request} {events : List Event}
  {id : ReviewableId} {r : Reviewable} {topic : TopicId} {claim : Option Claim}

/-- Every claim is one of another queue. -/
def ClaimsWithin (q base : Queue) : Prop :=
  ∀ topic claim, q.topicClaim topic = some claim → base.topicClaim topic = some claim

theorem ClaimsWithin.refl (q : Queue) : q.ClaimsWithin q := fun _ _ h ↦ h

/-- To take a claim off leaves no claim that was not there. -/
theorem claimsWithin_setTopicClaim_none (q : Queue) (topic : TopicId) :
    (q.setTopicClaim topic none).ClaimsWithin q := by
  intro other claim hclaim
  rw [topicClaim_setTopicClaim] at hclaim
  split at hclaim
  · cases hclaim
  · exact hclaim

/-- A new claim is only ever made by a request for it. -/
theorem Effect.claimsWithin (h : Effect q actor request q' events)
    (notClaim : ∀ topic automatic, request ≠ .claim topic automatic)
    (within : q.ClaimsWithin base) : q'.ClaimsWithin base := by
  cases h with
  | fetched | listed | claimLeft | updated | performed => exact within
  | claimKept topic automatic => exact absurd rfl (notClaim topic automatic)
  | claimTaken topic automatic => exact absurd rfl (notClaim topic automatic)
  | claimReleased other automatic claim held own =>
    exact fun topic claim hclaim ↦
      within topic claim (claimsWithin_setTopicClaim_none q other topic claim hclaim)
  | settled other action version data r status inTopic found writable granted htopic last =>
    exact fun topic claim hclaim ↦
      within topic claim (claimsWithin_setTopicClaim_none _ inTopic topic claim hclaim)

/-- A release leaves nothing of an automatic claim, nor of any claim if it is not automatic. -/
theorem Effect.topicClaim_release {automatic : Bool}
    (h : Effect q actor (.release topic automatic) q' events)
    (kind : automatic = true → ∀ claim, q.topicClaim topic = some claim → claim.automatic = true) :
    q'.topicClaim topic = none := by
  cases h with
  | claimReleased other auto claim held own => exact topicClaim_setTopicClaim_self q topic none
  | claimLeft other auto own =>
    by_contra hsome
    obtain ⟨claim, hclaim⟩ := Option.ne_none_iff_exists'.mp hsome
    obtain ⟨-, hexplicit, hautomatic⟩ := own claim hclaim
    simp [kind hautomatic claim hclaim] at hexplicit

/-- A release leaves no claim, unless it is automatic and there is an explicit one of the actor's. -/
theorem Effect.topicClaim_release_cases {automatic : Bool}
    (h : Effect q actor (.release topic automatic) q' events) :
    q'.topicClaim topic = none ∨ automatic = true ∧
      ∃ claim, q'.topicClaim topic = some claim ∧ claim.user.id = actor.id ∧
        claim.automatic = false := by
  cases h with
  | claimReleased other auto claim held own =>
    exact .inl (topicClaim_setTopicClaim_self q topic none)
  | claimLeft other auto own =>
    cases hclaim : q.topicClaim topic with
    | none => exact .inl rfl
    | some claim =>
      obtain ⟨hown, hexplicit, hautomatic⟩ := own claim hclaim
      exact .inr ⟨hautomatic, claim, rfl, hown, hexplicit⟩

/-- Where items show the claim of their topic, to write it once more changes nothing. -/
theorem withTopicClaim_of_claimsAgree (agree : q.ClaimsAgree) (found : q.items[id]? = some r)
    (topic : TopicId) : r.withTopicClaim topic (q.topicClaim topic) = r := by
  unfold Reviewable.withTopicClaim
  split
  · rename_i hinTopic
    rw [← agree id r topic found hinTopic]
  · rfl

@[simp]
theorem isPending_withTopicClaim (r : Reviewable) (topic : TopicId) (claim : Option Claim) :
    (r.withTopicClaim topic claim).isPending = r.isPending := by
  rw [r.withTopicClaim_frame]
  rfl

/-- A claim is written on what is pending, too. -/
theorem getElem?_pendingItems_setTopicClaim (q : Queue) (topic : TopicId) (claim : Option Claim)
    (id : ReviewableId) :
    (q.setTopicClaim topic claim).pendingItems[id]? =
      q.pendingItems[id]?.map (·.withTopicClaim topic claim) := by
  rw [getElem?_pendingItems, getElem?_pendingItems, items_setTopicClaim]
  cases q.items[id]? with
  | none => rfl
  | some r => cases hpending : r.isPending <;> simp [Option.filter, hpending]

/-- A reviewable that is written is among the pending ones if it is pending. -/
theorem getElem?_pendingItems_put (q : Queue) (id other : ReviewableId) (r : Reviewable) :
    (q.put id r).pendingItems[other]? =
      if id = other then (if r.isPending = true then some r else none)
      else q.pendingItems[other]? := by
  rw [getElem?_pendingItems, getElem?_pendingItems, items_put]
  split <;> rfl

/-- Once a topic is settled its claim shows on nothing that is pending. -/
theorem getElem?_pendingItems_of_settled (settled : q.hasPending topic = false)
    (claim : Option Claim) (id : ReviewableId) :
    (q.setTopicClaim topic claim).pendingItems[id]? = q.pendingItems[id]? := by
  rw [getElem?_pendingItems_setTopicClaim]
  cases hr : q.pendingItems[id]? with
  | none => rfl
  | some r =>
    obtain ⟨hfound, hpending⟩ := getElem?_pendingItems_eq_some_iff.mp hr
    have hother : r.topic ≠ some topic := by
      intro htopic
      simp [hasPending_eq_false_iff.mp settled id r hfound htopic] at hpending
    simp [Reviewable.withTopicClaim, hother]

/-- An action takes its reviewable away from what is pending, and nothing else changes there. -/
theorem Effect.getElem?_pendingItems {action : String} {version : UInt64} {data : Fields}
    (h : Effect q actor (.perform id action version data) q' events) (other : ReviewableId) :
    q'.pendingItems[other]? = if id = other then none else q.pendingItems[other]? := by
  have hresolved : ∀ (r : Reviewable) (status : Status), outcome r action = .ok status →
      (resolved r status data).isPending = false := by
    intro r status hgranted
    simp [Reviewable.isPending, resolved, outcome_isResolved hgranted]
  cases h with
  | performed _ _ _ _ r status found writable granted unsettled =>
    simp [getElem?_pendingItems_put, hresolved r status granted]
  | settled _ _ _ _ r status topic found writable granted inTopic last =>
    rw [getElem?_pendingItems_of_settled (hasPending_of_isSettled last)]
    simp [getElem?_pendingItems_put, hresolved r status granted]

/-- The claim in the answer is the one that the topic has now. -/
theorem claim_answer {automatic : Bool} {granted : Granted Claim}
    (h : q.claim topic actor automatic = .ok granted) :
    granted.queue.topicClaim topic = some granted.answer := by
  unfold claim at h
  cases hclaim : q.topicClaim topic with
  | none =>
    obtain rfl : _ = granted := by simpa [hclaim] using h
    exact topicClaim_setTopicClaim_self q topic _
  | some existing =>
    simp only [hclaim] at h
    split at h
    · cases h
    · split at h
      · obtain rfl : _ = granted := by simpa using h
        exact hclaim
      · obtain rfl : _ = granted := by simpa using h
        exact topicClaim_setTopicClaim_self q topic _

/-- The reviewable in the answer is the one that the queue has now. -/
theorem update_answer {version : UInt64} {updates : Fields} {granted : Granted Reviewable}
    (h : q.update id version actor updates = .ok granted) :
    granted.queue.items[id]? = some granted.answer := by
  obtain ⟨r, -, -, rfl⟩ := update_eq_ok_iff.mp h
  exact items_put_self q id (edited r updates)

/-- The result has the reviewable as it is now, says that it is gone, and counts what is left. -/
theorem perform_answer {action : String} {version : UInt64} {data : Fields}
    {granted : Granted PerformResult} (h : q.perform id action version actor data = .ok granted) :
    granted.answer.reviewable = granted.queue.items[id]? ∧
      granted.answer.removed = some [id] ∧
      granted.answer.count = some granted.queue.pendingCount := by
  obtain ⟨r, status, -, -, -, rfl⟩ := perform_eq_ok_iff.mp h
  exact ⟨rfl, rfl, rfl⟩

end Queue

namespace Store

variable {s s' : Store} {q q' : Queue} {actor : User} {events : List Event} {id : ReviewableId}
  {r : Reviewable} {topic : TopicId} {marked : Option ReviewableId}

/-- A store shows what is pending in a queue, with a marker on at most one reviewable. -/
structure Mirrors (marked : Option ReviewableId) (q : Queue) (s : Store) : Prop where
  keyed : q.Keyed
  claims : q.ClaimsAgree
  entries : ∀ id : ReviewableId,
    s.entries[id]? = q.pendingItems[id]?.map fun r ↦ ⟨r, decide (marked = some id)⟩
  count : ∀ count, s.counts.reviewables = some count → count = q.pendingCount

/-- A mirror shows what is pending. -/
theorem Mirrors.get?_eq (h : s.Mirrors marked q) (id : ReviewableId) :
    s.get? id = q.pendingItems[id]? := by
  rw [get?, h.entries, Option.map_map]
  exact Option.map_id_apply

theorem Mirrors.found (h : s.Mirrors marked q) (hr : s.get? id = some r) :
    q.items[id]? = some r := by
  rw [h.get?_eq] at hr
  exact (Queue.getElem?_pendingItems_eq_some_iff.mp hr).1

/-- A mirror without a guard has no marker. -/
theorem Mirrors.isUpdating_eq_false (h : s.Mirrors none q) (id : ReviewableId) :
    s.isUpdating id = false := by
  rw [isUpdating, h.entries]
  cases q.pendingItems[id]? <;> rfl

/-- A mirror lists what the queue lists, in the same order. -/
theorem Mirrors.snapshot_eq (h : s.Mirrors none q) : s.snapshot = q.pending := by
  have hentries : s.entries = q.pendingItems.map fun _ r ↦ ⟨r, false⟩ := by
    apply Std.ExtTreeMap.ext_getElem?
    intro id
    rw [h.entries, Std.ExtTreeMap.getElem?_map]
    rfl
  rw [snapshot, hentries, Std.ExtTreeMap.toList_map, List.map_map, Queue.pending_eq]
  rfl

/-! ## Taking answers over -/

/-- To load what is pending makes a mirror. -/
theorem mirrors_replaceAll (keyed : q.Keyed) (claims : q.ClaimsAgree)
    (unmarked : ∀ id, s.isUpdating id = false)
    (count : ∀ count, s.counts.reviewables = some count → count = q.pendingCount) :
    (s.replaceAll q.pending).store.Mirrors none q where
  keyed := keyed
  claims := claims
  entries id := by
    rw [entries_replaceAll_pending keyed]
    simp only [unmarked]
    rfl
  count := count

/-- Writing a claim that the queue shows already changes nothing. -/
theorem Mirrors.setTopicClaim_same (h : s.Mirrors marked q) (topic : TopicId) :
    (s.setTopicClaim topic (q.topicClaim topic)).store.Mirrors marked q where
  keyed := h.keyed
  claims := h.claims
  entries id := by
    rw [entries_setTopicClaim, h.entries]
    cases hr : q.pendingItems[id]? with
    | none => rfl
    | some r =>
      have hfound := (Queue.getElem?_pendingItems_eq_some_iff.mp hr).1
      simp [Queue.withTopicClaim_of_claimsAgree h.claims hfound]
  count := h.count

/-- The same claim, written on both sides. -/
theorem Mirrors.setTopicClaim {claim : Option Claim} (h : s.Mirrors marked q)
    (keyed : (q.setTopicClaim topic claim).Keyed)
    (claims : (q.setTopicClaim topic claim).ClaimsAgree) :
    (s.setTopicClaim topic claim).store.Mirrors marked (q.setTopicClaim topic claim) where
  keyed := keyed
  claims := claims
  entries id := by
    rw [entries_setTopicClaim, h.entries, Queue.getElem?_pendingItems_setTopicClaim]
    cases q.pendingItems[id]? <;> rfl
  count count hcount := by
    have hsame : (q.setTopicClaim topic claim).pendingCount = q.pendingCount := by
      apply Queue.pendingCount_congr
      intro id
      rw [Queue.getElem?_pendingItems_setTopicClaim, Option.isSome_map]
    rw [hsame]
    exact h.count count hcount

/-- With the claim from the answer the mirror is right again. -/
theorem Mirrors.claim {automatic : Bool} {claim : Claim} (h : s.Mirrors marked q)
    (heffect : Queue.Effect q actor (.claim topic automatic) q' events)
    (answer : q'.topicClaim topic = some claim) :
    (s.setTopicClaim topic (some claim)).store.Mirrors marked q' := by
  have keyed := heffect.keyed h.keyed
  have claims := heffect.claimsAgree h.claims
  rw [← answer]
  cases heffect with
  | claimKept other auto claim held own => exact h.setTopicClaim_same topic
  | claimTaken other auto own =>
    rw [Queue.topicClaim_setTopicClaim_self]
    exact h.setTopicClaim keyed claims

/-- Without the claim that was released it is right again. -/
theorem Mirrors.release {automatic : Bool} (h : s.Mirrors marked q)
    (heffect : Queue.Effect q actor (.release topic automatic) q' events)
    (answer : q'.topicClaim topic = none) :
    (s.setTopicClaim topic none).store.Mirrors marked q' := by
  have keyed := heffect.keyed h.keyed
  have claims := heffect.claimsAgree h.claims
  cases heffect with
  | claimLeft other auto own =>
    rw [← answer]
    exact h.setTopicClaim_same topic
  | claimReleased other auto claim held own => exact h.setTopicClaim keyed claims

/-- A reviewable with another version is told from the copy. -/
theorem same_eq_false_of_version_ne {r r' : Reviewable} (h : r.version ≠ r'.version) :
    r.same r' = false := by
  simp [Reviewable.same, h]

/-- With the edited reviewable it is right again. -/
theorem Mirrors.update {version : UInt64} {updates : Fields} (h : s.Mirrors marked q)
    (heffect : Queue.Effect q actor (.update id version updates) q' events)
    (answer : q'.items[id]? = some r) : (s.refresh r).store.Mirrors marked q' := by
  have keyed := heffect.keyed h.keyed
  have claims := heffect.claimsAgree h.claims
  have hid := keyed id r answer
  cases heffect with
  | updated _ _ _ old found writable =>
    obtain rfl : Queue.edited old updates = r := by simpa using answer
    have hold : q.pendingItems[id]? = some old :=
      Queue.getElem?_pendingItems_eq_some_iff.mpr ⟨found, writable.pending⟩
    obtain ⟨category, fields, hframe⟩ := Queue.edited_frame old updates
    have hpending : (Queue.edited old updates).isPending = true := by
      rw [hframe]
      exact writable.pending
    have hnew : old.same (Queue.edited old updates) = false := by
      apply same_eq_false_of_version_ne
      rw [hframe]
      simp
    refine ⟨keyed, claims, fun other ↦ ?_, fun count hcount ↦ ?_⟩
    · rw [entries_refresh, h.entries, Queue.getElem?_pendingItems_put, hid]
      split
      · subst other
        simp [hold, hnew]
      · rfl
    · rw [counts_refresh] at hcount
      rw [h.count count hcount]
      symm
      apply Queue.pendingCount_congr
      intro other
      rw [Queue.getElem?_pendingItems_put]
      split
      · subst other
        simp [hold]
      · rfl

/-- The queue's own copy is not news. -/
theorem Mirrors.refresh (h : s.Mirrors marked q) (found : q.items[id]? = some r) :
    (s.refresh r).store.Mirrors marked q where
  keyed := h.keyed
  claims := h.claims
  entries other := by
    rw [entries_refresh, h.entries]
    split
    · rename_i heq
      obtain rfl : id = other := (h.keyed id r found).symm.trans heq
      cases hr : q.pendingItems[id]? with
      | none => rfl
      | some r' =>
        have hfound := (Queue.getElem?_pendingItems_eq_some_iff.mp hr).1
        obtain rfl : r = r' := by simpa [found] using hfound
        simp [Reviewable.same_refl]
    · rfl
  count := by
    rw [counts_refresh]
    exact h.count

/-- The store with everything that the result of an action says, if it says what to remove. -/
def takeResult (s : Store) (result : PerformResult) : Store :=
  let counted := (s.applyCounts result.count result.unseen).store
  let fresh := match result.reviewable with
    | some r => (counted.refresh r).store
    | none => counted
  match result.removed with
  | some ids => (fresh.remove ids).store
  | none => fresh

/-- With the result it is right again: what was resolved is gone, and the count is the new one. -/
theorem Mirrors.perform {action : String} {version : UInt64} {data : Fields}
    {result : PerformResult} (h : s.Mirrors marked q)
    (heffect : Queue.Effect q actor (.perform id action version data) q' events)
    (copy : result.reviewable = q'.items[id]?) (removed : result.removed = some [id])
    (counted : result.count = some q'.pendingCount) :
    (s.takeResult result).Mirrors marked q' where
  keyed := heffect.keyed h.keyed
  claims := heffect.claimsAgree h.claims
  entries other := by
    have hcopy : ∀ r, result.reviewable = some r → r.id = id :=
      fun r hr ↦ heffect.keyed h.keyed id r (copy.symm.trans hr)
    rw [heffect.getElem?_pendingItems]
    unfold takeResult
    simp only [removed, entries_remove, List.mem_singleton]
    by_cases hid : id = other
    · simp [hid]
    · rw [if_neg (Ne.symm hid), if_neg hid, ← h.entries]
      cases hr : result.reviewable with
      | none => simp
      | some r => simp [entries_refresh, hcopy r hr, hid]
  count count hknown := by
    have hcounts : (s.takeResult result).counts =
        (s.applyCounts result.count result.unseen).store.counts := by
      unfold takeResult
      rw [removed]
      cases result.reviewable with
      | none => rfl
      | some r => exact counts_refresh _ r
    rw [hcounts, counts_applyCounts, counted] at hknown
    exact (Option.some.inj hknown).symm

/-- A mirror of a queue whose claims are all among those of another. -/
def Within (base : Queue) (marked : Option ReviewableId) (q : Queue) (s : Store) : Prop :=
  s.Mirrors marked q ∧ q.ClaimsWithin base

/-! ## Markers -/

/-- The guard that was given out is the only one. -/
theorem Mirrors.beginUpdate (h : s.Mirrors none q) (hbegin : s.beginUpdate id = .ok s') :
    s'.Mirrors (some id) q := by
  obtain ⟨e, he, -, rfl⟩ := beginUpdate_eq_ok_iff.mp hbegin
  refine ⟨h.keyed, h.claims, fun other ↦ ?_, h.count⟩
  rw [Std.ExtTreeMap.getElem?_insert, h.entries]
  rw [h.entries, Option.map_eq_some_iff] at he
  obtain ⟨r, hr, rfl⟩ := he
  by_cases hid : id = other
  · subst other
    simp [hr]
  · simp [hid]

/-- Without its guard the mirror is whole again. -/
theorem Mirrors.endUpdate (h : s.Mirrors (some id) q) : (s.endUpdate id).Mirrors none q where
  keyed := h.keyed
  claims := h.claims
  entries other := by
    rw [entries_endUpdate, h.entries, Option.map_map]
    split
    · rfl
    · rename_i hne
      simp [hne]
  count := h.count

end Store

end Moderation
