import Moderation.Proofs.Queue.Told
import Moderation.Proofs.Specimen
import Moderation.Proofs.Throughout

/-!
# Two places for a claim

The queue writes the claim on a topic down twice, with the topic and with everything that lies in
it. Requests write both. A reviewable that comes in takes over the claim of its topic; one that
brings a claim to a free topic claims it, but what lay there before does not show that. The two
places agree throughout a run exactly when no claim is brought in that way.
-/

namespace Moderation

namespace Queue

variable {q q' : Queue} {actor : User} {request : Request} {events : List Event} {op : Operation}
  {ops : List Operation}

/-- Everything in a topic shows the claim on the topic. -/
def ClaimsAgree (q : Queue) : Prop :=
  ∀ (id : ReviewableId) (r : Reviewable) (topic : TopicId),
    q.items[id]? = some r → r.topic = some topic → r.claim = q.topicClaim topic

/-- What lies in a topic shows no other claim than the one on the topic. -/
def ShowsNoOther (q : Queue) : Prop :=
  ∀ (id : ReviewableId) (r : Reviewable) (topic : TopicId),
    q.items[id]? = some r → r.topic = some topic → r.claim = none ∨ r.claim = q.topicClaim topic

theorem claimsAgree_empty (mode : ClaimMode) : (empty mode).ClaimsAgree := by
  intro id r topic hr
  simp [empty] at hr

theorem ClaimsAgree.showsNoOther (agree : q.ClaimsAgree) : q.ShowsNoOther :=
  fun id r topic found inTopic ↦ .inr (agree id r topic found inTopic)

theorem Effect.claimsAgree (h : Effect q actor request q' events) (agree : q.ClaimsAgree) :
    q'.ClaimsAgree := by
  intro id s topic hs htopic
  obtain ⟨r, hr, hitem, hclaim⟩ := h.item_before hs
  have hinTopic : r.topic = some topic := hitem.id_topic_eq.2.symm.trans htopic
  rw [hclaim, h.topicClaim, ← agree id r topic hr hinTopic, shownAfter, hinTopic]

theorem Effect.showsNoOther (h : Effect q actor request q' events) (shows : q.ShowsNoOther) :
    q'.ShowsNoOther := by
  intro id s topic hs htopic
  obtain ⟨r, hr, hitem, hclaim⟩ := h.item_before hs
  have hinTopic : r.topic = some topic := hitem.id_topic_eq.2.symm.trans htopic
  have hshown : s.claim = claimAfter topic r.claim (transfers events) := by
    rw [hclaim, shownAfter, hinTopic]
  rw [hshown, h.topicClaim]
  by_cases hmem : ∃ event ∈ transfers events, event.topic = topic
  · exact .inr (claimAfter_of_mem hmem _ _)
  · have hnever : ∀ event ∈ transfers events, event.topic ≠ topic := by simpa using hmem
    rw [claimAfter_of_never hnever, claimAfter_of_never hnever]
    exact shows id r topic hr hinTopic

/-- An operation that brings a claim to a free topic in which something else lies. -/
def BringsClaimLate (q : Queue) (op : Operation) : Prop :=
  ∃ new topic, op = .insert new ∧ new.topic = some topic ∧ q.topicClaim topic = none ∧
    new.claim.isSome ∧ ∃ id r, q.items[id]? = some r ∧ id ≠ new.id ∧ r.topic = some topic

theorem shownIn_of_topic {new : Reviewable} {topic : TopicId} (inTopic : new.topic = some topic) :
    q.shownIn new = (q.topicClaim topic).or new.claim := by
  rw [shownIn, inTopic, Option.bind_some]

/-- What came in shows the claim of its topic. -/
theorem topicClaim_insert_self {new : Reviewable} {topic : TopicId}
    (inTopic : new.topic = some topic) : (q.insert new).topicClaim topic = q.shownIn new := by
  rw [topicClaim_insert, if_pos inTopic]

/-- The claims go on to agree after a newcomer unless it brings one late. -/
theorem claimsAgree_insert_iff (agree : q.ClaimsAgree) (new : Reviewable) :
    (q.insert new).ClaimsAgree ↔ ¬ q.BringsClaimLate (.insert new) := by
  constructor
  · rintro hagree ⟨_, topic, ⟨⟩, inTopic, free, brings, id, r, found, other, hr⟩
    have hstays : (q.insert new).items[id]? = some r := by
      rw [items_insert, if_neg (Ne.symm other), found]
    have hshows : r.claim = new.claim := by
      rw [hagree id r topic hstays hr, topicClaim_insert_self inTopic, shownIn_of_topic inTopic,
        free, Option.none_or]
    rw [← hshows, agree id r topic found hr, free] at brings
    cases brings
  · intro timely id r topic found hr
    rw [items_insert] at found
    split at found
    · obtain rfl := Option.some.inj found
      have inTopic : new.topic = some topic := hr
      exact (topicClaim_insert_self inTopic).symm
    · rename_i other
      rw [agree id r topic found hr, topicClaim_insert]
      split
      · rename_i inTopic
        rw [shownIn_of_topic inTopic]
        cases free : q.topicClaim topic with
        | some claim => rfl
        | none =>
          cases brings : new.claim with
          | none => rfl
          | some claim =>
            exact absurd ⟨new, topic, rfl, inTopic, free, by rw [brings]; rfl, id, r, found,
              Ne.symm other, hr⟩ timely
      · rfl

theorem ClaimsAgree.insert {r : Reviewable} (agree : q.ClaimsAgree) (unclaimed : r.claim = none) :
    (q.insert r).ClaimsAgree := by
  rw [claimsAgree_insert_iff agree]
  rintro ⟨_, _, ⟨⟩, -, -, brings, -⟩
  simp [unclaimed] at brings

theorem ShowsNoOther.insert (shows : q.ShowsNoOther) (new : Reviewable) :
    (q.insert new).ShowsNoOther := by
  intro id r topic found hr
  rw [items_insert] at found
  split at found
  · obtain rfl := Option.some.inj found
    have inTopic : new.topic = some topic := hr
    exact .inr (topicClaim_insert_self inTopic).symm
  · rw [topicClaim_insert]
    split
    · rename_i inTopic
      rw [shownIn_of_topic inTopic]
      rcases shows id r topic found hr with hnone | hsame
      · exact .inl hnone
      · cases hclaim : q.topicClaim topic with
        | none => exact .inl (hsame.trans hclaim)
        | some claim => exact .inr (hsame.trans hclaim)
    · exact shows id r topic found hr

theorem claimsAgree_after_iff (agree : q.ClaimsAgree) (op : Operation) :
    (q.after op).ClaimsAgree ↔ ¬ q.BringsClaimLate op := by
  cases op with
  | insert new => exact claimsAgree_insert_iff agree new
  | setMode mode =>
    refine iff_of_true agree ?_
    rintro ⟨_, _, ⟨⟩, -⟩
  | request actor request =>
    refine iff_of_true ?_ (by rintro ⟨_, _, ⟨⟩, -⟩)
    rcases q.request_cases actor request with ⟨-, hafter, -⟩ | ⟨-, heffect⟩
    · rw [hafter]
      exact agree
    · exact heffect.claimsAgree agree

theorem ShowsNoOther.after (shows : q.ShowsNoOther) (op : Operation) :
    (q.after op).ShowsNoOther := by
  cases op with
  | insert new => exact shows.insert new
  | setMode mode => exact shows
  | request actor request =>
    rcases q.request_cases actor request with ⟨-, hafter, -⟩ | ⟨-, heffect⟩
    · rw [hafter]
      exact shows
    · exact heffect.showsNoOther shows

/-- The claims agree throughout a run exactly when it brings no claim late. -/
theorem claimsAgree_run_iff (agree : q.ClaimsAgree) (ops : List Operation) :
    (∀ before, before <+: ops → (q.run before).ClaimsAgree) ↔
      ∀ before op, before ++ [op] <+: ops → ¬ (q.run before).BringsClaimLate op :=
  throughout_iff after ClaimsAgree BringsClaimLate
    (fun _ op hbefore ↦ claimsAgree_after_iff hbefore op) agree ops

/-- Whatever the seed and the run, what lies in a topic shows the claim on it or none; and from the
empty queue on, everything shows it at every point exactly when no claim is brought to a free topic
in which something else lies already. -/
theorem item_claims_mirror_topic_claims (mode : ClaimMode) (seed : List Reviewable)
    (ops : List Operation) :
    ((ofSeed mode seed).run ops).ShowsNoOther ∧
      ((∀ before, before <+: seed.map .insert ++ ops → ((empty mode).run before).ClaimsAgree) ↔
        ∀ before op, before ++ [op] <+: seed.map .insert ++ ops →
          ¬ ((empty mode).run before).BringsClaimLate op) := by
  refine ⟨?_, claimsAgree_run_iff (claimsAgree_empty mode) _⟩
  rw [ofSeed_eq_run, ← run_append]
  exact run_induction (fun _ op _ shows ↦ shows.after op) (claimsAgree_empty mode).showsNoOther

/-- A claim that the second of two brings to their topic does not show in the first. -/
theorem claim_brought_late_is_not_shown :
    let second := { Reviewable.plain 2 (some 7) with claim := some ⟨.bob, false⟩ }
    let q := ofSeed .optional [.plain 1 (some 7), second]
    ∃ r, q.items[(1 : ReviewableId)]? = some r ∧ r.topic = some 7 ∧ r.claim = none ∧
      q.topicClaim 7 = some ⟨.bob, false⟩ :=
  ⟨.plain 1 (some 7), rfl, rfl, rfl, rfl⟩

end Queue

end Moderation
