import Mathlib.Tactic.Common
import Moderation.Backend
import Moderation.Proofs.Edit

/-!
# What a request does

A request that the queue grants does one of a few things: it leaves the queue as it is, it writes
the claim of one topic, or it writes one reviewable anew and perhaps drops the claim of its topic.
`Effect` lists them together with what the queue checked before and with what it tells the other
sessions. Whatever holds of every run is proved from this list.
-/

namespace Moderation

/-- A chain of checks passes exactly when its first check does and the rest does after it. -/
theorem bind_eq_ok_iff {ε α β : Type} {first : Except ε α} {rest : α → Except ε β} {b : β} :
    (first >>= rest) = .ok b ↔ ∃ a, first = .ok a ∧ rest a = .ok b := by
  cases first with
  | error fault => simp [bind, Except.bind]
  | ok a => simp [bind, Except.bind]

namespace Reviewable

/-- The reviewable after the claim of some topic was written. -/
def withTopicClaim (r : Reviewable) (topic : TopicId) (claim : Option Claim) : Reviewable :=
  if r.topic = some topic then { r with claim } else r

/-- Nothing but the claim is written. -/
theorem withTopicClaim_frame (r : Reviewable) (topic : TopicId) (claim : Option Claim) :
    r.withTopicClaim topic claim = { r with claim := (r.withTopicClaim topic claim).claim } := by
  unfold withTopicClaim
  split <;> rfl

/-- The claim of a topic is written on the reviewables of that topic only. -/
theorem claim_withTopicClaim (r : Reviewable) (topic : TopicId) (claim : Option Claim) :
    (r.withTopicClaim topic claim).claim = if r.topic = some topic then claim else r.claim := by
  unfold withTopicClaim
  split <;> rfl

@[simp]
theorem topic_withTopicClaim (r : Reviewable) (topic : TopicId) (claim : Option Claim) :
    (r.withTopicClaim topic claim).topic = r.topic := by
  rw [withTopicClaim_frame]

end Reviewable

namespace Queue

variable {q : Queue} {actor : User} {topic : TopicId} {id : ReviewableId}

/-- The queue with one reviewable written anew. -/
def put (q : Queue) (id : ReviewableId) (r : Reviewable) : Queue :=
  { q with items := q.items.insert id r }

theorem items_put (q : Queue) (id other : ReviewableId) (r : Reviewable) :
    (q.put id r).items[other]? = if id = other then some r else q.items[other]? := by
  simp [put, Std.ExtTreeMap.getElem?_insert]

@[simp]
theorem items_put_self (q : Queue) (id : ReviewableId) (r : Reviewable) :
    (q.put id r).items[id]? = some r := by
  rw [items_put, if_pos rfl]

theorem items_put_of_ne (q : Queue) {id other : ReviewableId} (r : Reviewable) (h : id ≠ other) :
    (q.put id r).items[other]? = q.items[other]? := by
  rw [items_put, if_neg h]

@[simp]
theorem topicClaim_put (q : Queue) (id : ReviewableId) (r : Reviewable) (topic : TopicId) :
    (q.put id r).topicClaim topic = q.topicClaim topic := rfl

/-- The claim of a topic is written on all its reviewables. -/
theorem items_setTopicClaim (q : Queue) (topic : TopicId) (claim : Option Claim)
    (id : ReviewableId) :
    (q.setTopicClaim topic claim).items[id]? = q.items[id]?.map (·.withTopicClaim topic claim) :=
  Std.ExtTreeMap.getElem?_map

/-- No other topic gets the claim. -/
theorem topicClaim_setTopicClaim (q : Queue) (topic other : TopicId) (claim : Option Claim) :
    (q.setTopicClaim topic claim).topicClaim other =
      if topic = other then claim else q.topicClaim other := by
  cases claim with
  | some claim => simp [setTopicClaim, topicClaim, Std.ExtTreeMap.getElem?_insert]
  | none =>
    simp only [setTopicClaim, topicClaim, Std.ExtTreeMap.getElem?_erase,
      Std.LawfulEqOrd.compare_eq_iff_eq]

@[simp]
theorem topicClaim_setTopicClaim_self (q : Queue) (topic : TopicId) (claim : Option Claim) :
    (q.setTopicClaim topic claim).topicClaim topic = claim := by
  rw [topicClaim_setTopicClaim, if_pos rfl]

theorem topicClaim_setTopicClaim_of_ne (q : Queue) {topic other : TopicId} (claim : Option Claim)
    (h : topic ≠ other) :
    (q.setTopicClaim topic claim).topicClaim other = q.topicClaim other := by
  rw [topicClaim_setTopicClaim, if_neg h]

/-- A topic has something pending if one of its reviewables is. -/
theorem hasPending_eq_true_iff :
    q.hasPending topic = true ↔
      ∃ (id : ReviewableId) (r : Reviewable),
        q.items[id]? = some r ∧ r.topic = some topic ∧ r.isPending = true := by
  unfold hasPending all
  simp only [List.any_map, List.any_eq_true, Function.comp, Bool.and_eq_true, beq_iff_eq]
  constructor
  · rintro ⟨⟨id, r⟩, hmem, htopic, hpending⟩
    exact ⟨id, r, Std.ExtTreeMap.mem_toList_iff_getElem?_eq_some.mp hmem, htopic, hpending⟩
  · rintro ⟨id, r, hfound, htopic, hpending⟩
    exact ⟨(id, r), Std.ExtTreeMap.mem_toList_iff_getElem?_eq_some.mpr hfound, htopic, hpending⟩

/-- Nothing in the topic waits, as far as the queue has it. -/
theorem hasPending_eq_false_iff :
    q.hasPending topic = false ↔
      ∀ (id : ReviewableId) (r : Reviewable),
        q.items[id]? = some r → r.topic = some topic → r.isPending = false := by
  rw [← Bool.not_eq_true, hasPending_eq_true_iff]
  constructor
  · intro h id r hfound htopic
    by_contra hpending
    exact h ⟨id, r, hfound, htopic, by simpa using hpending⟩
  · rintro h ⟨id, r, hfound, htopic, hpending⟩
    simp [h id r hfound htopic] at hpending

/-- Claims do not decide what is pending. -/
theorem hasPending_setTopicClaim (q : Queue) (topic other : TopicId) (claim : Option Claim)
    (h : q.hasPending topic = false) : (q.setTopicClaim other claim).hasPending topic = false := by
  rw [hasPending_eq_false_iff] at h ⊢
  intro id r hfound htopic
  rw [items_setTopicClaim, Option.map_eq_some_iff] at hfound
  obtain ⟨r, hfound, rfl⟩ := hfound
  rw [Reviewable.withTopicClaim_frame] at htopic ⊢
  exact h id r hfound htopic

/-- A topic is settled only when nothing of it is pending. -/
theorem hasPending_of_isSettled (h : q.isSettled topic = true) : q.hasPending topic = false := by
  simpa using (Bool.and_eq_true_iff.mp h).1

/-! ## What is checked -/

/-- The claims let an actor change what lies in a topic. -/
structure Permits (q : Queue) (topic : TopicId) (actor : User) : Prop where
  own : ∀ claim, q.topicClaim topic = some claim → claim.user.id = actor.id
  free : q.topicClaim topic = none → q.mode ≠ .required

/-- A change to a reviewable that an actor prepared against a version may be made. -/
structure Writable (q : Queue) (r : Reviewable) (version : UInt64) (actor : User) : Prop where
  pending : r.isPending = true
  version : r.version = version
  permits : ∀ topic, r.topic = some topic → q.Permits topic actor

/-- The check of the claim lets through whom the queue permits to write. -/
theorem checkClaim_eq_ok_iff :
    q.checkClaim topic actor = .ok () ↔ q.Permits topic actor := by
  unfold checkClaim
  cases hclaim : q.topicClaim topic with
  | none =>
    constructor
    · intro h
      refine ⟨by simp [hclaim], fun _ hmode ↦ ?_⟩
      simp [hmode] at h
    · intro h
      simp [h.free hclaim]
  | some claim =>
    constructor
    · intro h
      refine ⟨fun other hother ↦ ?_, by simp [hclaim]⟩
      obtain rfl : claim = other := by simpa [hclaim] using hother
      by_contra hne
      simp [hne] at h
    · intro h
      simp [h.own claim hclaim]

/-- The checks of a write let through exactly what is writable. -/
theorem checkWritable_eq_ok_iff {r : Reviewable} {version : UInt64} :
    q.checkWritable r version actor = .ok () ↔ q.Writable r version actor := by
  unfold checkWritable
  by_cases hresolved : r.status.isResolved = true
  · simp only [hresolved, if_true, reduceCtorEq, false_iff]
    intro h
    simpa [Reviewable.isPending, hresolved] using h.pending
  · have hpending : r.isPending = true := by simpa [Reviewable.isPending] using hresolved
    rw [if_neg hresolved]
    by_cases hversion : r.version = version
    · rw [if_neg (not_not_intro hversion)]
      cases htopic : r.topic with
      | none => exact ⟨fun _ ↦ ⟨hpending, hversion, by simp [htopic]⟩, fun _ ↦ rfl⟩
      | some topic =>
        refine checkClaim_eq_ok_iff.trans ⟨fun h ↦ ⟨hpending, hversion, fun other hother ↦ ?_⟩,
          fun h ↦ h.permits topic htopic⟩
        obtain rfl : topic = other := by simpa [htopic] using hother
        exact h
    · rw [if_pos hversion]
      simp only [reduceCtorEq, false_iff]
      exact fun h ↦ hversion h.version

/-- The reviewable as an edit leaves it. -/
def edited (r : Reviewable) (updates : Fields) : Reviewable :=
  { r.applyUpdates updates with version := (r.applyUpdates updates).version + 1 }

/-- An edit counts the version up, and writes the category and the flattened fields. -/
theorem edited_frame (r : Reviewable) (updates : Fields) :
    ∃ category fields,
      edited r updates = { r with version := r.version + 1, category, fields } := by
  obtain ⟨category, fields, hframe⟩ := r.applyUpdates_frame updates
  exact ⟨category, fields, by rw [edited, hframe]⟩

/-- The event that tells of an action, given the queue that it left. -/
def completed (q : Queue) (id : ReviewableId) : Event :=
  .actionCompleted ⟨[id], some q.pendingCount, none⟩

/-- The queue after the claim of a topic was given up, if that of any topic was. -/
def released (q : Queue) : Option TopicId → Queue
  | none => q
  | some topic => q.setTopicClaim topic none

/-- The topic that an action on something in `topic` settles. -/
def settledTopic (q : Queue) (topic : Option TopicId) : Option TopicId := topic.filter q.isSettled

theorem settle_eq (q : Queue) (topic : Option TopicId) :
    q.settle topic = (q.released (q.settledTopic topic),
      (q.settledTopic topic).toList.map fun topic ↦ .claimTransfer (.released topic)) := by
  cases topic with
  | none => rfl
  | some topic =>
    cases h : q.isSettled topic <;> simp [settle, settledTopic, Option.filter_some, released, h]

/-- What an action leaves behind that is not refused. -/
def resolution (q : Queue) (id : ReviewableId) (r : Reviewable) (status : Status) (data : Fields) :
    Granted PerformResult :=
  let done := resolved r status data
  let written := q.put id done
  let settled := written.settledTopic r.topic
  let left := written.released settled
  { queue := left
    events := (settled.toList.map fun topic ↦ .claimTransfer (.released topic)) ++
      [completed left id]
    answer := {
      success := true
      status := some status
      version := some done.version
      reviewable := left.items[id]?
      removed := some [id]
      count := some left.pendingCount
      unseen := none } }

theorem perform_eq (q : Queue) (id : ReviewableId) (action : String) (version : UInt64)
    (actor : User) (data : Fields) :
    q.perform id action version actor data = (do
      let r ← q.get id
      q.checkWritable r version actor
      let status ← outcome r action
      pure (q.resolution id r status data)) := by
  unfold perform
  simp only [settle_eq]
  rfl

theorem get_eq_ok_iff {r : Reviewable} : q.get id = .ok r ↔ q.items[id]? = some r := by
  unfold get
  cases q.items[id]? <;> simp

theorem perform_eq_ok_iff {action : String} {version : UInt64} {data : Fields}
    {granted : Granted PerformResult} :
    q.perform id action version actor data = .ok granted ↔
      ∃ r status, q.items[id]? = some r ∧ q.Writable r version actor ∧
        outcome r action = .ok status ∧ q.resolution id r status data = granted := by
  rw [perform_eq]
  simp only [bind_eq_ok_iff, get_eq_ok_iff]
  constructor
  · rintro ⟨r, hfound, ⟨⟩, hwritable, status, hstatus, h⟩
    exact ⟨r, status, hfound, checkWritable_eq_ok_iff.mp hwritable, hstatus, Except.ok.inj h⟩
  · rintro ⟨r, status, hfound, hwritable, hstatus, rfl⟩
    exact ⟨r, hfound, (), checkWritable_eq_ok_iff.mpr hwritable, status, hstatus, rfl⟩

/-- An edit is granted where the reviewable is there and writable. -/
theorem update_eq_ok_iff {version : UInt64} {updates : Fields} {granted : Granted Reviewable} :
    q.update id version actor updates = .ok granted ↔
      ∃ r, q.items[id]? = some r ∧ q.Writable r version actor ∧
        (⟨q.put id (edited r updates), [], edited r updates⟩ : Granted Reviewable) = granted := by
  unfold update
  simp only [bind_eq_ok_iff, get_eq_ok_iff]
  constructor
  · rintro ⟨r, hfound, ⟨⟩, hwritable, h⟩
    exact ⟨r, hfound, checkWritable_eq_ok_iff.mp hwritable, Except.ok.inj h⟩
  · rintro ⟨r, hfound, hwritable, rfl⟩
    exact ⟨r, hfound, (), checkWritable_eq_ok_iff.mpr hwritable, rfl⟩

/-- What a granted request of an actor does to a queue, and what the others are told. -/
inductive Effect (q : Queue) (actor : User) : Request → Queue → List Event → Prop where
  | fetched (id : ReviewableId) : Effect q actor (.fetch id) q []
  | listed : Effect q actor .list q []
  /-- The actor has the claim already, as good as it was asked for. -/
  | claimKept (topic : TopicId) (automatic : Bool) (claim : Claim)
      (held : q.topicClaim topic = some claim) (own : claim.user.id = actor.id) :
      Effect q actor (.claim topic automatic) q []
  | claimTaken (topic : TopicId) (automatic : Bool)
      (own : ∀ claim, q.topicClaim topic = some claim → claim.user.id = actor.id) :
      Effect q actor (.claim topic automatic) (q.setTopicClaim topic (some ⟨actor, automatic⟩))
        [.claimTransfer (.taken topic ⟨actor, automatic⟩)]
  /-- There is no claim, or an explicit one of the actor's that an automatic release leaves. -/
  | claimLeft (topic : TopicId) (automatic : Bool)
      (own : ∀ claim, q.topicClaim topic = some claim →
        claim.user.id = actor.id ∧ claim.automatic = false ∧ automatic = true) :
      Effect q actor (.release topic automatic) q []
  | claimReleased (topic : TopicId) (automatic : Bool) (claim : Claim)
      (held : q.topicClaim topic = some claim) (own : claim.user.id = actor.id) :
      Effect q actor (.release topic automatic) (q.setTopicClaim topic none)
        [.claimTransfer (.released topic)]
  | updated (id : ReviewableId) (version : UInt64) (updates : Fields) (r : Reviewable)
      (found : q.items[id]? = some r) (writable : q.Writable r version actor) :
      Effect q actor (.update id version updates)
        (q.put id (edited r updates)) []
  | performed (id : ReviewableId) (action : String) (version : UInt64) (data : Fields)
      (r : Reviewable) (status : Status) (found : q.items[id]? = some r)
      (writable : q.Writable r version actor) (granted : outcome r action = .ok status)
      (unsettled : ∀ topic, r.topic = some topic →
        (q.put id (resolved r status data)).isSettled topic = false) :
      Effect q actor (.perform id action version data) (q.put id (resolved r status data))
        [completed (q.put id (resolved r status data)) id]
  /-- The action was the last that the topic waited for, and its automatic claim goes. -/
  | settled (id : ReviewableId) (action : String) (version : UInt64) (data : Fields)
      (r : Reviewable) (status : Status) (topic : TopicId) (found : q.items[id]? = some r)
      (writable : q.Writable r version actor) (granted : outcome r action = .ok status)
      (inTopic : r.topic = some topic)
      (last : (q.put id (resolved r status data)).isSettled topic = true) :
      Effect q actor (.perform id action version data)
        ((q.put id (resolved r status data)).setTopicClaim topic none)
        [.claimTransfer (.released topic),
          completed ((q.put id (resolved r status data)).setTopicClaim topic none) id]

/-- A claim that is granted is written for the topic and told, unless the actor has it already. -/
theorem claim_effect {automatic : Bool} {granted : Granted Claim}
    (h : q.claim topic actor automatic = .ok granted) :
    Effect q actor (.claim topic automatic) granted.queue granted.events := by
  unfold claim at h
  cases hclaim : q.topicClaim topic with
  | none =>
    obtain rfl : _ = granted := by simpa [hclaim] using h
    exact .claimTaken topic automatic (by simp [hclaim])
  | some existing =>
    simp only [hclaim] at h
    split at h
    · cases h
    · rename_i hown
      have hown : existing.user.id = actor.id := by simpa using hown
      split at h
      · obtain rfl : _ = granted := by simpa using h
        exact .claimKept topic automatic existing hclaim hown
      · obtain rfl : _ = granted := by simpa using h
        refine .claimTaken topic automatic fun claim hother ↦ ?_
        obtain rfl : existing = claim := by simpa [hclaim] using hother
        exact hown

/-- A release that is granted takes the claim off and tells it, or does nothing at all. -/
theorem unclaim_effect {automatic : Bool} {granted : Granted Unit}
    (h : q.unclaim topic actor automatic = .ok granted) :
    Effect q actor (.release topic automatic) granted.queue granted.events := by
  unfold unclaim at h
  cases hclaim : q.topicClaim topic with
  | none =>
    obtain rfl : _ = granted := by simpa [hclaim] using h
    exact .claimLeft topic automatic (by simp [hclaim])
  | some existing =>
    simp only [hclaim] at h
    split at h
    · cases h
    · rename_i hown
      have hown : existing.user.id = actor.id := by simpa using hown
      split at h
      · rename_i hkept
        obtain rfl : _ = granted := by simpa using h
        refine .claimLeft topic automatic fun claim hother ↦ ?_
        obtain rfl : existing = claim := by simpa [hclaim] using hother
        exact ⟨hown, by simpa using (Bool.and_eq_true_iff.mp hkept).2,
          (Bool.and_eq_true_iff.mp hkept).1⟩
      · obtain rfl : _ = granted := by simpa using h
        exact .claimReleased topic automatic existing hclaim hown

/-- An edit that is granted changes its reviewable and tells nobody. -/
theorem update_effect {version : UInt64} {updates : Fields} {granted : Granted Reviewable}
    (h : q.update id version actor updates = .ok granted) :
    Effect q actor (.update id version updates) granted.queue granted.events := by
  obtain ⟨r, hfound, hwritable, rfl⟩ := update_eq_ok_iff.mp h
  exact .updated id version updates r hfound hwritable

/-- An action that is granted resolves its reviewable, and may release the topic. -/
theorem perform_effect {action : String} {version : UInt64} {data : Fields}
    {granted : Granted PerformResult} (h : q.perform id action version actor data = .ok granted) :
    Effect q actor (.perform id action version data) granted.queue granted.events := by
  obtain ⟨r, status, hfound, hwritable, hstatus, rfl⟩ := perform_eq_ok_iff.mp h
  simp only [resolution]
  cases hsettled : (q.put id (resolved r status data)).settledTopic r.topic with
  | none =>
    refine .performed id action version data r status hfound hwritable hstatus ?_
    intro topic htopic
    rw [settledTopic, Option.filter_eq_none_iff] at hsettled
    simpa using hsettled topic htopic
  | some topic =>
    obtain ⟨htopic, hlast⟩ := Option.filter_eq_some_iff.mp hsettled
    exact .settled id action version data r status topic hfound hwritable hstatus htopic hlast

/-- Every granted request is one of the list. -/
theorem serve_effect {request : Request} {granted : Granted request.Answer}
    (h : q.serve actor request = .ok granted) :
    Effect q actor request granted.queue granted.events := by
  cases request with
  | perform id action version data => exact perform_effect h
  | claim topic automatic => exact claim_effect h
  | release topic automatic => exact unclaim_effect h
  | fetch id =>
    simp only [serve] at h
    cases hget : q.get id with
    | error refusal => simp [hget, Except.map] at h
    | ok r =>
      obtain rfl : _ = granted := by simpa [hget, Except.map] using h
      exact .fetched id
  | list =>
    obtain rfl : _ = granted := Except.ok.inj h
    exact .listed
  | update id version updates => exact update_effect h

end Queue

end Moderation
