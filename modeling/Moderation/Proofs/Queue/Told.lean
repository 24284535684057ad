import Moderation.Proofs.Queue.History

/-!
# What the sessions are told

The events of a run say enough to follow a reviewable through it: who has its topic, and whether it
still waits for review. Edits and newcomers are not told of.
-/

namespace Moderation

namespace Queue

variable {q : Queue} {id : ReviewableId} {r s : Reviewable} {op : Operation} {ops : List Operation}

/-- Every reviewable stands under its own number. -/
def Keyed (q : Queue) : Prop :=
  ∀ (id : ReviewableId) (r : Reviewable), q.items[id]? = some r → r.id = id

/-- The queues there are: the ones that operations make of an empty one. -/
def Reachable (q : Queue) : Prop := ∃ mode ops, q = (empty mode).run ops

/-- No request changes the id of a reviewable or its topic. -/
theorem ItemEffect.id_topic_eq {actor : User} {request : Request}
    (h : ItemEffect q actor id r s request) : s.id = r.id ∧ s.topic = r.topic := by
  cases h with
  | kept request other same =>
    rw [same]
    exact ⟨rfl, rfl⟩
  | edited version updates writable eq =>
    obtain ⟨category, fields, hframe⟩ := edited_frame r updates
    rw [eq, hframe]
    exact ⟨rfl, rfl⟩
  | resolved action version data status writable granted eq =>
    rw [eq]
    exact ⟨rfl, rfl⟩

theorem Effect.keyed {q' : Queue} {actor : User} {request : Request} {events : List Event}
    (h : Effect q actor request q' events) (hq : q.Keyed) : q'.Keyed := by
  intro id s hs
  obtain ⟨r, hr, hitem, -⟩ := h.item_before hs
  exact hitem.id_topic_eq.1.trans (hq id r hr)

/-- A reviewable stays under its id. -/
theorem Keyed.after (h : q.Keyed) (op : Operation) : (q.after op).Keyed := by
  cases op with
  | setMode mode => exact h
  | insert new =>
    intro id s hs
    rw [Queue.after, items_insert] at hs
    split at hs
    · rename_i heq
      obtain rfl := Option.some.inj hs
      exact heq
    · exact h id s hs
  | request actor request =>
    rcases q.request_cases actor request with ⟨-, hafter, -⟩ | ⟨-, heffect⟩
    · rw [hafter]
      exact h
    · exact heffect.keyed h

theorem Keyed.run (h : q.Keyed) (ops : List Operation) : (q.run ops).Keyed :=
  run_induction (fun _ op _ hq ↦ hq.after op) h

theorem Reachable.keyed (h : q.Reachable) : q.Keyed := by
  obtain ⟨mode, ops, rfl⟩ := h
  have hempty : (empty mode).Keyed := by
    intro id r hr
    simp [empty] at hr
  exact hempty.run ops

/-- What is reached from a reachable queue is reachable. -/
theorem Reachable.run (h : q.Reachable) (ops : List Operation) : (q.run ops).Reachable := by
  obtain ⟨mode, before, rfl⟩ := h
  exact ⟨mode, before ++ ops, (run_append _ before ops).symm⟩

def pendingItems (q : Queue) : Std.ExtTreeMap ReviewableId Reviewable :=
  q.items.filter fun _ r ↦ r.isPending

theorem getElem?_pendingItems (q : Queue) (id : ReviewableId) :
    q.pendingItems[id]? = q.items[id]?.filter (·.isPending) :=
  Std.ExtTreeMap.getElem?_filter'

/-- Pending items are the items that are pending. -/
theorem getElem?_pendingItems_eq_some_iff :
    q.pendingItems[id]? = some r ↔ q.items[id]? = some r ∧ r.isPending = true := by
  rw [getElem?_pendingItems, Option.filter_eq_some_iff]

/-- What is pending is listed in the order of the ids. -/
theorem pending_eq (q : Queue) : q.pending = q.pendingItems.toList.map (·.2) := by
  unfold pending all pendingItems
  rw [Std.ExtTreeMap.toList_filter, List.filter_map]
  rfl

theorem Keyed.map_pending (hq : q.Keyed) {α : Type} (f : ReviewableId → Reviewable → α) :
    (q.pending.map fun r ↦ f r.id r) = q.pendingItems.toList.map fun (id, r) ↦ f id r := by
  rw [pending_eq, List.map_map]
  apply List.map_congr_left
  rintro ⟨id, r⟩ hmem
  have hfound := Std.ExtTreeMap.mem_toList_iff_getElem?_eq_some.mp hmem
  have hid := hq id r (getElem?_pendingItems_eq_some_iff.mp hfound).1
  simp [hid]

theorem Keyed.map_id_pending (hq : q.Keyed) : q.pending.map (·.id) = q.pendingItems.keys := by
  rw [hq.map_pending fun id _ ↦ id, ← Std.ExtTreeMap.map_fst_toList_eq_keys]

/-- Maps that have the same keys list them alike. -/
theorem keys_eq_of_isSome_eq {α β : Type} {m : Std.ExtTreeMap ReviewableId α}
    {n : Std.ExtTreeMap ReviewableId β} (h : ∀ id : ReviewableId, m[id]?.isSome = n[id]?.isSome) :
    m.keys = n.keys := by
  have hunit : m.map (fun _ _ ↦ ()) = n.map fun _ _ ↦ () := by
    apply Std.ExtTreeMap.ext_mem_unit
    intro id
    rw [Std.ExtTreeMap.mem_map, Std.ExtTreeMap.mem_map, Std.ExtTreeMap.mem_iff_isSome_getElem?,
      Std.ExtTreeMap.mem_iff_isSome_getElem?, h]
  have hkeys := congrArg Std.ExtTreeMap.keys hunit
  rwa [Std.ExtTreeMap.keys_map, Std.ExtTreeMap.keys_map] at hkeys

/-- The count is taken modulo 2^64, as every count is. -/
theorem pendingCount_eq (q : Queue) : q.pendingCount = UInt64.ofNat q.pendingItems.keys.length := by
  rw [pendingCount, pending_eq, List.length_map, Std.ExtTreeMap.length_toList,
    Std.ExtTreeMap.length_keys]

/-- The count depends on which ids are pending, and on nothing else. -/
theorem pendingCount_congr {q' : Queue}
    (h : ∀ id : ReviewableId, q'.pendingItems[id]?.isSome = q.pendingItems[id]?.isSome) :
    q'.pendingCount = q.pendingCount := by
  rw [pendingCount_eq, pendingCount_eq, keys_eq_of_isSome_eq h]

/-- No operation of a run brings anything in. -/
def Closed (ops : List Operation) : Prop := ∀ new, .insert new ∉ ops

theorem Closed.head (h : Closed (op :: ops)) (new : Reviewable) : op ≠ .insert new :=
  fun hop ↦ h new (hop ▸ List.mem_cons_self)

theorem Closed.tail (h : Closed (op :: ops)) : Closed ops :=
  fun new hop ↦ h new (List.mem_cons_of_mem op hop)

theorem Closed.neverInserted (h : Closed ops) (id : ReviewableId) : NeverInserted id ops :=
  fun new hop ↦ absurd hop (h new)

/-- A reviewable became another in step with some events. -/
structure Follows (id : ReviewableId) (r s : Reviewable) (events : List Event) : Prop where
  topic : s.topic = r.topic
  claim : s.claim = shownAfter r (transfers events)
  pending : s.isPending = true ↔ r.isPending = true ∧ id ∉ removals (completions events)

/-- What was shown in between does not matter. -/
theorem shownAfter_append (htopic : s.topic = r.topic) {first : List ClaimTransfer}
    (hclaim : s.claim = shownAfter r first) (rest : List ClaimTransfer) :
    shownAfter s rest = shownAfter r (first ++ rest) := by
  unfold shownAfter at hclaim ⊢
  rw [htopic]
  cases hr : r.topic with
  | none => simpa [hr] using hclaim
  | some topic =>
    have hclaim : s.claim = claimAfter topic r.claim first := by simpa only [hr] using hclaim
    change claimAfter topic s.claim rest = claimAfter topic r.claim (first ++ rest)
    rw [claimAfter_append, hclaim]

theorem Follows.refl (id : ReviewableId) (r : Reviewable) : Follows id r r [] where
  topic := rfl
  claim := (shownAfter_nil r).symm
  pending := by simp [completions, removals]

/-- Events may be followed one part after another. -/
theorem Follows.trans {t : Reviewable} {first rest : List Event} (h : Follows id r s first)
    (h' : Follows id s t rest) : Follows id r t (first ++ rest) where
  topic := h'.topic.trans h.topic
  claim := by
    rw [h'.claim, shownAfter_append h.topic h.claim, transfers_append]
  pending := by
    rw [h'.pending, h.pending, completions_append, removals_append, List.mem_append, not_or,
      and_assoc]

/-- What one operation tells is enough to follow a reviewable through it. -/
theorem follows_after (found : q.items[id]? = some r) (closed : ∀ new, op ≠ .insert new) :
    ∃ s, (q.after op).items[id]? = some s ∧ Follows id r s (q.told op) := by
  cases op with
  | setMode mode => exact ⟨r, found, .refl id r⟩
  | insert new => exact absurd rfl (closed new)
  | request actor request =>
    rcases q.request_cases actor request with ⟨-, hafter, htold⟩ | ⟨-, heffect⟩
    · rw [hafter, htold]
      exact ⟨r, found, .refl id r⟩
    · obtain ⟨s, hs, hitem, hclaim⟩ := heffect.item found
      exact ⟨s, hs, hitem.id_topic_eq.2, hclaim, heffect.isPending found hs⟩

/-- What a run tells is enough to follow a reviewable through it. -/
theorem follows_run (found : q.items[id]? = some r) (closed : Closed ops) :
    ∃ s, (q.run ops).items[id]? = some s ∧ Follows id r s (q.broadcast ops) := by
  induction ops generalizing q r with
  | nil => exact ⟨r, found, .refl id r⟩
  | cons op rest ih =>
    obtain ⟨s, hs, hfirst⟩ := follows_after found closed.head
    obtain ⟨t, ht, hrest⟩ := ih hs closed.tail
    exact ⟨t, ht, hfirst.trans hrest⟩

/-- Without an insertion nothing comes in. -/
theorem missing_run (missing : q.items[id]? = none) (closed : Closed ops) :
    (q.run ops).items[id]? = none := by
  induction ops generalizing q with
  | nil => exact missing
  | cons op rest ih =>
    refine ih ?_ closed.tail
    cases op with
    | setMode mode => exact missing
    | insert new => exact absurd rfl (closed.head new)
    | request actor request =>
      rcases q.request_cases actor request with ⟨-, hafter, -⟩ | ⟨-, heffect⟩
      · rw [hafter, missing]
      · exact heffect.item_none missing

/-- A reviewable that nothing was accepted for is what it was, up to the claim that it shows. -/
theorem unchanged_run (found : q.items[id]? = some r) (kept : NeverInserted id ops)
    (none : q.accepted id ops = []) :
    ∃ s, (q.run ops).items[id]? = some s ∧ s = { r with claim := s.claim } := by
  induction ops generalizing q r with
  | nil => exact ⟨r, found, rfl⟩
  | cons op rest ih =>
    rw [accepted, List.append_eq_nil_iff] at none
    obtain ⟨s, hs, hstep⟩ := item_step found kept.head
    cases hstep with
    | changed change accepted => simp [accepted] at none
    | kept _ same =>
      obtain ⟨t, ht, hsame⟩ := ih hs kept.tail none.2
      refine ⟨t, ht, ?_⟩
      rw [hsame, same]

end Queue

end Moderation
