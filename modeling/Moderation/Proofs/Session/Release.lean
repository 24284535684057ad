import Moderation.Proofs.Session.Faithful

/-!
# Giving a claim up

A session gives a claim up as the kind of claim that it takes it for, and shows the topic as free
once that is granted. The queue grants an automatic release of an explicit claim too, and leaves the
claim where it is. So a session that goes by an old copy shows a topic as free that is still its
own; in every other case a topic is free that was given up.
-/

namespace Moderation

namespace Queue

variable {q : Queue} {actor : User} {topic : TopicId} {automatic : Bool}

/-- The claim that a release leaves on a topic: an explicit one, if the release is automatic. -/
def leftBy (q : Queue) (topic : TopicId) (automatic : Bool) : Option Claim :=
  (q.topicClaim topic).filter fun claim ↦ automatic && !claim.automatic

theorem leftBy_eq_none_iff : q.leftBy topic automatic = none ↔
    (automatic = true → ∀ claim, q.topicClaim topic = some claim → claim.automatic = true) := by
  unfold leftBy
  cases q.topicClaim topic <;> cases automatic <;> simp

theorem topicClaim_unclaim {granted : Granted Unit}
    (h : q.unclaim topic actor automatic = .ok granted) :
    granted.queue.topicClaim topic = q.leftBy topic automatic := by
  unfold unclaim at h
  unfold leftBy
  cases hclaim : q.topicClaim topic with
  | none =>
    obtain rfl : _ = granted := by simpa [hclaim] using h
    exact hclaim
  | some existing =>
    simp only [hclaim] at h
    split at h
    · cases h
    · split at h
      · rename_i hleft
        obtain rfl : _ = granted := by simpa using h
        simp only [Option.filter, hleft, if_true]
        exact hclaim
      · rename_i hgone
        obtain rfl : _ = granted := by simpa using h
        simp only [Option.filter, hgone]
        exact topicClaim_setTopicClaim_self q topic none

end Queue

namespace Store

/-- Everything that the store has of a topic shows this claim. -/
def Shows (s : Store) (topic : TopicId) (claim : Option Claim) : Prop :=
  ∀ (id : ReviewableId) (r : Reviewable), s.get? id = some r →
    r.topic = some topic → r.claim = claim

theorem shows_setTopicClaim (s : Store) (topic : TopicId) (claim : Option Claim) :
    (s.setTopicClaim topic claim).store.Shows topic claim := by
  intro id r hget htopic
  rw [get?_setTopicClaim, Option.map_eq_some_iff] at hget
  obtain ⟨old, -, rfl⟩ := hget
  rw [Reviewable.topic_withTopicClaim] at htopic
  rw [Reviewable.claim_withTopicClaim, if_pos htopic]

end Store

/-- A topic was given up: the store shows it as free, and the queue has no claim on it but one that
the release leaves. -/
structure GivesUp (topic : TopicId) (automatic : Bool) (before q : Queue) (s : Store) : Prop where
  shown : s.Shows topic none
  left : q.topicClaim topic = before.leftBy topic automatic
  freed_iff : q.topicClaim topic = none ↔
    (automatic = true → ∀ claim, before.topicClaim topic = some claim → claim.automatic = true)

namespace Task

/-- What holds before a task and speaks of neither queue nor store may be used all along. -/
theorem ensures_given {α : Type} {c : Company} {P : Queue → Store → Prop} {task : Task α}
    {Q : α → Queue → Store → Prop} {F : Prop} (fact : ∀ q st, P q st → F)
    (h : F → task.Ensures c P Q) : task.Ensures c P Q :=
  fun w hw ↦ h (fact _ _ hw) w hw

end Task

namespace Session

open Moderation.Task

variable {c : Company} {before : Queue} {store : Store} {topic : TopicId} {automatic : Bool}

/-- A granted release, taken over into the store. -/
theorem ensures_giveUp {α : Type} (topic : TopicId) (automatic : Bool) (value : α) :
    (onStore (·.setTopicClaim topic none) >>= fun _ ↦ pure value).Ensures c
      (fun q _ ↦ q.topicClaim topic = before.leftBy topic automatic)
      fun _ q st ↦ GivesUp topic automatic before q st := by
  refine ensures_bind (Q := fun _ ↦ GivesUp topic automatic before)
    (ensures_onStore fun q st hleft ↦ ⟨st.shows_setTopicClaim topic none, hleft, ?_⟩)
    fun _ ↦ keeps_pure value
  rw [hleft, Queue.leftBy_eq_none_iff]

theorem ensures_releaseCall (topic : TopicId) (automatic : Bool) :
    (call (.release topic automatic)).Ensures c (fun q _ ↦ q = before)
      fun reply q _ ↦ reply = .ok () → q.topicClaim topic = before.leftBy topic automatic := by
  refine ensures_call (fun q _ granted hq hserve _ ↦ ?_) fun _ _ _ _ _ hok ↦ nomatch hok
  subst hq
  exact Queue.topicClaim_unclaim hserve

/-- The claim is given up as the kind that the session's copy shows. -/
theorem ensures_unclaim (s : Session) (id : ReviewableId) :
    (s.unclaim id).Ensures c (fun q st ↦ q = before ∧ st = store)
      fun result q st ↦ result = .ok () → ∃ r topic, store.get? id = some r ∧
        r.topic = some topic ∧ GivesUp topic (r.claim.any (·.automatic)) before q st := by
  refine ensures_withCopy (fun _ _ _ hok ↦ nomatch hok) fun r ↦
    ensures_given (F := store.get? id = some r) (fun q st h ↦ h.1.2 ▸ h.2) fun hget ↦ ?_
  cases htopic : r.topic with
  | none => exact ensures_pure fun _ _ _ hok ↦ nomatch hok
  | some topic =>
    refine Ensures.mono (P := fun q _ ↦ q = before)
      (ensures_bind (ensures_releaseCall topic (r.claim.any (·.automatic))) fun reply ↦ ?_)
      (fun _ _ h ↦ h.1.1) fun _ _ _ h ↦ h
    cases reply with
    | ok answer =>
      exact (ensures_giveUp topic _ (Except.ok ())).mono (fun _ _ h ↦ h rfl)
        fun _ _ _ h _ ↦ ⟨r, topic, hget, htopic, h⟩
    | error fault => exact ensures_pure fun _ _ _ hok ↦ nomatch hok

/-- Only an automatic claim is released, as one. -/
theorem ensures_releaseCopy (s : Session) (r : Reviewable) :
    (s.release r).Ensures c (fun q _ ↦ q = before)
      fun result q st ↦ result = .ok true → ∃ topic, r.topic = some topic ∧
        GivesUp topic true before q st := by
  unfold release
  split
  · rename_i topic claim htopic _
    split
    · refine ensures_bind (ensures_releaseCall topic true) fun reply ↦ ?_
      cases reply with
      | ok answer =>
        exact (ensures_giveUp topic true (Except.ok true)).mono (fun _ _ h ↦ h rfl)
          fun _ _ _ h _ ↦ ⟨topic, htopic, h⟩
      | error fault => exact ensures_pure fun _ _ _ hok ↦ nomatch hok
    · exact ensures_pure fun _ _ _ hok ↦ nomatch hok
  · exact ensures_pure fun _ _ _ hok ↦ nomatch hok

/-- After a release that is granted the session shows the topic as free. So it is, unless the
release was automatic and the claim explicit. -/
theorem release_frees_topic (s : Session) (c : Company) (w : World) :
    (∀ id, ((s.unclaim id).alone c w).1 = .ok () → ∃ r topic,
      w.session.store.get? id = some r ∧ r.topic = some topic ∧
        GivesUp topic (r.claim.any (·.automatic)) w.queue ((s.unclaim id).alone c w).2.queue
          ((s.unclaim id).alone c w).2.session.store) ∧
      ∀ r, ((s.release r).alone c w).1 = .ok true → ∃ topic, r.topic = some topic ∧
        GivesUp topic true w.queue ((s.release r).alone c w).2.queue
          ((s.release r).alone c w).2.session.store :=
  ⟨fun id ↦ s.ensures_unclaim id w ⟨rfl, rfl⟩, fun r ↦ s.ensures_releaseCopy r w rfl⟩

/-- Alice gives up an explicit claim and an automatic one, and knows which is which. -/
theorem release_frees_topic_of_own_claims :
    let s : Session := ⟨.alice, default, [], [], false, false⟩
    let c : Company := ⟨.alice, fun _ ↦ Query.answerBy fun _ ↦ .error (.transport "")⟩
    let q := (Queue.empty .optional).run [.insert (.plain 1 (some 10)),
      .insert (.plain 2 (some 20)), .request .alice (.claim 10 false),
      .request .alice (.claim 20 true)]
    let store := (Store.empty.replaceAll q.pending).store
    let w : World := ⟨q, { (default : State) with store }, 0⟩
    let copy := { Reviewable.plain 2 (some 20) with claim := some ⟨.alice, true⟩ }
    ((s.unclaim 1).alone c w).2.queue.topicClaim 10 = none ∧
      ((s.release copy).alone c w).2.queue.topicClaim 20 = none ∧
        ((s.release copy).alone c w).2.session.store.Shows 20 none := by
  intro s c q store w copy
  have hgranted : ((s.unclaim 1).alone c w).1 = .ok () := rfl
  have hreleased : ((s.release copy).alone c w).1 = .ok true := rfl
  obtain ⟨hunclaim, hrelease⟩ := s.release_frees_topic c w
  obtain ⟨r, topic, hget, htopic, hgivesUp⟩ := hunclaim 1 hgranted
  obtain ⟨topic', htopic', hgivesUp'⟩ := hrelease copy hreleased
  have hstored : (w.session.store.get? 1).map (fun r ↦ (r.topic, r.claim)) =
      some (some 10, some ⟨.alice, false⟩) := by decide +kernel
  obtain ⟨rfl, hclaim⟩ : topic = 10 ∧ r.claim = some ⟨.alice, false⟩ := by
    simpa [hget, htopic] using hstored
  obtain rfl : 20 = topic' := Option.some.inj htopic'
  refine ⟨hgivesUp.freed_iff.mpr ?_, hgivesUp'.freed_iff.mpr ?_, hgivesUp'.shown⟩
  · simp [hclaim]
  · have hheld : q.topicClaim 20 = some ⟨.alice, true⟩ := by decide +kernel
    simp [w, hheld]

/-- Alice has an explicit claim, and her session an old copy that shows an automatic one. The queue
accepts both ways of releasing that, and the session shows as free what is still her topic. -/
theorem release_granted_but_claim_left :
    let s : Session := ⟨.alice, default, [], [], false, false⟩
    let c : Company := ⟨.alice, fun _ ↦ Query.answerBy fun _ ↦ .error (.transport "")⟩
    let q := (Queue.empty .optional).run [.insert (.plain 1 (some 10)),
      .request .alice (.claim 10 false)]
    let copy := { Reviewable.plain 1 (some 10) with claim := some ⟨.alice, true⟩ }
    let w : World := ⟨q, { (default : State) with store := (Store.empty.insert copy).store }, 0⟩
    let unclaimed := (s.unclaim 1).alone c w
    let released := (s.release copy).alone c w
    (unclaimed.1 = .ok () ∧ unclaimed.2.queue.topicClaim 10 = some ⟨.alice, false⟩ ∧
        (unclaimed.2.session.store.get? 1).map (fun r ↦ (r.topic, r.claim)) =
          some (some 10, none)) ∧
      released.1 = .ok true ∧ released.2.queue.topicClaim 10 = some ⟨.alice, false⟩ ∧
        (released.2.session.store.get? 1).map (fun r ↦ (r.topic, r.claim)) =
          some (some 10, none) := by
  intro s c q copy w unclaimed released
  refine ⟨⟨rfl, ?_, ?_⟩, rfl, ?_, ?_⟩
  all_goals decide +kernel

end Session

end Moderation
