import Moderation.Proofs.Queue.Run
import Moderation.Proofs.Specimen

/-!
# A claim is a lock

Whoever has claimed a topic keeps it through whatever anybody does, until giving it up: by a release
of the topic, or by the action that resolves the last of what waits there. As long as it lasts nobody
else can claim or release the topic, or change anything that lies in it.
-/

namespace Moderation

namespace Queue

variable {q : Queue} {topic : TopicId} {holder : UserId} {op : Operation} {ops : List Operation}

def HeldBy (q : Queue) (topic : TopicId) (holder : UserId) : Prop :=
  ∃ claim, q.topicClaim topic = some claim ∧ claim.user.id = holder

/-- The two ways in which the holder of a topic loses the claim. -/
inductive GivesUp (q : Queue) (topic : TopicId) (holder : UserId) : Operation → Prop where
  | released (actor : User) (automatic : Bool) (own : actor.id = holder)
      (gone : (q.after (.request actor (.release topic automatic))).topicClaim topic = none) :
      GivesUp q topic holder (.request actor (.release topic automatic))
  | resolvedLast (actor : User) (id : ReviewableId) (action : String) (version : UInt64)
      (data : Fields) (r : Reviewable) (own : actor.id = holder)
      (found : q.items[id]? = some r) (inTopic : r.topic = some topic)
      (pending : r.isPending = true)
      (last : (q.after (.request actor (.perform id action version data))).hasPending topic = false)
      (gone : (q.after (.request actor (.perform id action version data))).topicClaim topic =
        none) :
      GivesUp q topic holder (.request actor (.perform id action version data))

theorem heldBy_of_claim {actor : User} {automatic : Bool} {granted : Granted Claim}
    (taken : q.claim topic actor automatic = .ok granted) :
    granted.queue.HeldBy topic actor.id := by
  have heffect := claim_effect taken
  generalize granted.queue = q' at heffect ⊢
  generalize granted.events = events at heffect
  cases heffect with
  | claimKept topic automatic claim held own => exact ⟨claim, held, own⟩
  | claimTaken topic automatic own => exact ⟨_, topicClaim_setTopicClaim_self q topic _, rfl⟩

theorem heldBy_after (held : q.HeldBy topic holder) (h : ¬ GivesUp q topic holder op) :
    (q.after op).HeldBy topic holder := by
  obtain ⟨claim, hclaim, hholder⟩ := held
  cases op with
  | setMode mode => exact ⟨claim, hclaim, hholder⟩
  | insert new =>
    refine ⟨claim, ?_, hholder⟩
    rw [after, topicClaim_insert]
    split
    · rename_i htopic
      simp [shownIn, htopic, hclaim]
    · exact hclaim
  | request actor request =>
    rcases q.request_cases actor request with ⟨-, hafter, -⟩ | ⟨-, heffect⟩
    · rw [hafter]
      exact ⟨claim, hclaim, hholder⟩
    · generalize hafter : q.after (.request actor request) = q' at heffect
      generalize q.told (.request actor request) = events at heffect
      cases heffect with
      | fetched | listed | claimKept | claimLeft | updated | performed =>
        exact ⟨claim, hclaim, hholder⟩
      | claimTaken other automatic own =>
        by_cases heq : other = topic
        · subst other
          exact ⟨_, topicClaim_setTopicClaim_self q topic _, (own claim hclaim).symm.trans hholder⟩
        · exact ⟨claim, by rw [topicClaim_setTopicClaim_of_ne q _ heq, hclaim], hholder⟩
      | claimReleased other automatic claim' held own =>
        by_cases heq : other = topic
        · subst other
          obtain rfl : claim = claim' := by simpa [hclaim] using held
          refine absurd (.released actor automatic (own.symm.trans hholder) ?_) h
          rw [hafter]
          exact topicClaim_setTopicClaim_self q topic none
        · exact ⟨claim, by rw [topicClaim_setTopicClaim_of_ne q _ heq, hclaim], hholder⟩
      | settled id action version data r status other found writable granted inTopic last =>
        by_cases heq : other = topic
        · subst other
          have hown := (writable.permits topic inTopic).own claim hclaim
          refine absurd (.resolvedLast actor id action version data r (hown.symm.trans hholder)
            found inTopic writable.pending ?_ ?_) h
          · rw [hafter]
            exact hasPending_setTopicClaim _ topic topic none (hasPending_of_isSettled last)
          · rw [hafter]
            exact topicClaim_setTopicClaim_self _ topic none
        · refine ⟨claim, ?_, hholder⟩
          rw [topicClaim_setTopicClaim_of_ne _ _ heq, topicClaim_put, hclaim]

/-- No operation of a run is one by which the holder loses the claim. -/
def NeverGivenUp (topic : TopicId) (holder : UserId) (q : Queue) (ops : List Operation) : Prop :=
  ∀ before op rest, ops = before ++ op :: rest → ¬ GivesUp (q.run before) topic holder op

theorem neverGivenUp_nil (topic : TopicId) (holder : UserId) (q : Queue) :
    NeverGivenUp topic holder q [] := by
  intro before op rest heq
  simp at heq

theorem neverGivenUp_cons :
    NeverGivenUp topic holder q (op :: ops) ↔
      ¬ GivesUp q topic holder op ∧ NeverGivenUp topic holder (q.after op) ops := by
  constructor
  · intro h
    refine ⟨h [] op ops rfl, fun before next rest heq ↦ ?_⟩
    exact h (op :: before) next rest (by rw [heq, List.cons_append])
  · rintro ⟨hfirst, hrest⟩ before next rest heq
    cases before with
    | nil =>
      obtain ⟨rfl, -⟩ := List.cons.inj heq
      exact hfirst
    | cons first before =>
      obtain ⟨rfl, hops⟩ := List.cons.inj heq
      exact hrest before next rest hops

theorem heldBy_run (held : q.HeldBy topic holder) (h : NeverGivenUp topic holder q ops) :
    (q.run ops).HeldBy topic holder := by
  induction ops generalizing q with
  | nil => exact held
  | cons op rest ih =>
    obtain ⟨hfirst, hrest⟩ := neverGivenUp_cons.mp h
    exact ih (heldBy_after held hfirst) hrest

variable {claim : Claim} {other : User}

theorem claim_refused (held : q.topicClaim topic = some claim) (foreign : claim.user.id ≠ other.id)
    (automatic : Bool) :
    q.claim topic other automatic = .error (.claimConflict topic claim.user.username) := by
  simp [Queue.claim, held, foreign]

theorem unclaim_refused (held : q.topicClaim topic = some claim)
    (foreign : claim.user.id ≠ other.id) (automatic : Bool) :
    q.unclaim topic other automatic = .error (.claimConflict topic claim.user.username) := by
  simp [unclaim, held, foreign]

theorem not_writable {r : Reviewable} {version : UInt64} (held : q.topicClaim topic = some claim)
    (foreign : claim.user.id ≠ other.id) (inTopic : r.topic = some topic) :
    ¬ q.Writable r version other :=
  fun h ↦ foreign ((h.permits topic inTopic).own claim held)

theorem perform_writable {id : ReviewableId} {r : Reviewable} {action : String} {version : UInt64}
    {data : Fields} {granted : Granted PerformResult} (found : q.items[id]? = some r)
    (h : q.perform id action version other data = .ok granted) : q.Writable r version other := by
  obtain ⟨r', status, found', hwritable, -, -⟩ := perform_eq_ok_iff.mp h
  obtain rfl : r = r' := by simpa [found] using found'
  exact hwritable

theorem update_writable {id : ReviewableId} {r : Reviewable} {version : UInt64} {updates : Fields}
    {granted : Granted Reviewable} (found : q.items[id]? = some r)
    (h : q.update id version other updates = .ok granted) : q.Writable r version other := by
  obtain ⟨r', found', hwritable, -⟩ := update_eq_ok_iff.mp h
  obtain rfl : r = r' := by simpa [found] using found'
  exact hwritable

theorem exists_error {ε α : Type} {answer : Except ε α} (h : ∀ a, answer ≠ .ok a) :
    ∃ fault, answer = .error fault := by
  cases answer with
  | error fault => exact ⟨fault, rfl⟩
  | ok a => exact absurd rfl (h a)

/-- Once a topic is claimed, it stays its holder's and closed to everybody else through every run in
which the holder does not give it up. -/
theorem claim_locks_topic (q : Queue) (topic : TopicId) (holder : User) (automatic : Bool)
    (granted : Granted Claim) (taken : q.claim topic holder automatic = .ok granted)
    (ops : List Operation) (h : NeverGivenUp topic holder.id granted.queue ops) :
    ∃ claim, (granted.queue.run ops).topicClaim topic = some claim ∧ claim.user.id = holder.id ∧
      ∀ other : User, other.id ≠ holder.id →
        (∀ automatic, (granted.queue.run ops).claim topic other automatic =
          .error (.claimConflict topic claim.user.username)) ∧
        (∀ automatic, (granted.queue.run ops).unclaim topic other automatic =
          .error (.claimConflict topic claim.user.username)) ∧
        ∀ id r, (granted.queue.run ops).items[id]? = some r → r.topic = some topic →
          (∀ action version data, ∃ refusal,
            (granted.queue.run ops).perform id action version other data = .error refusal) ∧
          ∀ version updates, ∃ refusal,
            (granted.queue.run ops).update id version other updates = .error refusal := by
  obtain ⟨claim, hclaim, hholder⟩ := heldBy_run (heldBy_of_claim taken) h
  refine ⟨claim, hclaim, hholder, fun other hother ↦ ?_⟩
  have hforeign : claim.user.id ≠ other.id := fun heq ↦ hother (heq.symm.trans hholder)
  refine ⟨claim_refused hclaim hforeign, unclaim_refused hclaim hforeign,
    fun id r hfound htopic ↦ ⟨fun action version data ↦ ?_, fun version updates ↦ ?_⟩⟩
  · exact exists_error fun _ hok ↦ not_writable hclaim hforeign htopic (perform_writable hfound hok)
  · exact exists_error fun _ hok ↦ not_writable hclaim hforeign htopic (update_writable hfound hok)

/-- Somebody else's release, a reviewable that brings a claim of somebody else's, a change of the
mode and an action of the holder's that leaves something to do do not open the lock. -/
theorem claim_locks_topic_through_a_run :
    let q := ofSeed .required [Reviewable.plain 1 (some 10), Reviewable.plain 2 (some 10)]
    let ops := [.request .bob (.release 10 false),
      .insert { Reviewable.plain 3 (some 10) with claim := some ⟨.bob, false⟩ },
      .setMode .disabled, .request .alice (.perform 1 "approve_post" 0 ∅)]
    ∃ granted, q.claim 10 .alice true = .ok granted ∧ NeverGivenUp 10 1 granted.queue ops ∧
      ∃ claim, (granted.queue.run ops).topicClaim 10 = some claim ∧ claim.user.id = 1 ∧
        (granted.queue.run ops).claim 10 .bob false =
          .error (.claimConflict 10 claim.user.username) := by
  intro q ops
  refine ⟨_, rfl, ?_⟩
  have kept : NeverGivenUp 10 User.alice.id (q.setTopicClaim 10 (some ⟨.alice, true⟩)) ops := by
    refine neverGivenUp_cons.mpr ⟨?_, neverGivenUp_cons.mpr ⟨?_, neverGivenUp_cons.mpr ⟨?_,
      neverGivenUp_cons.mpr ⟨?_, neverGivenUp_nil _ _ _⟩⟩⟩⟩
    · rintro ⟨-, -, own, -⟩
      exact absurd own (by decide)
    · rintro ⟨⟩
    · rintro ⟨⟩
    · rintro (_ | ⟨-, -, -, -, -, r, -, -, -, -, -, gone⟩)
      exact absurd gone (by decide +kernel)
  refine ⟨kept, ?_⟩
  obtain ⟨claim, hclaim, hholder, hothers⟩ := claim_locks_topic q 10 .alice true _ rfl ops kept
  exact ⟨claim, hclaim, hholder, (hothers .bob (by decide)).1 false⟩

end Queue

end Moderation
