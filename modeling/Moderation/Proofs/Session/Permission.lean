import Moderation.Proofs.Queue.Agreement
import Moderation.Proofs.Queue.Resolution
import Moderation.Session.Claims

/-!
# Who may act

A session tells from its copy of a reviewable whether its moderator may act on it; the queue decides
that by the claim on the topic. If the copy is current and both go by the same claim mode they say
the same, but for one case. Where claims are not in use the session does not look at an explicit
claim, and the queue refuses everybody but its holder all the same.
-/

namespace Moderation

/-- The reason is the claim on a topic, or that there is none. -/
def Refusal.concernsClaim : Refusal → Bool
  | claimConflict .. | claimRequired _ => true
  | _ => false

namespace Queue

variable {q : Queue} {actor : User} {topic : TopicId} {id : ReviewableId} {r : Reviewable}
  {action : String} {version : UInt64} {data : Fields}

/-- An action is refused because of the claim on a topic, or because there is none. -/
def Bars (q : Queue) (id : ReviewableId) (action : String) (version : UInt64) (actor : User)
    (data : Fields) : Prop :=
  ∃ refusal, q.perform id action version actor data = .error refusal ∧
    refusal.concernsClaim = true

theorem checkClaim_concernsClaim {refusal : Refusal}
    (h : q.checkClaim topic actor = .error refusal) : refusal.concernsClaim = true := by
  rcases checkClaim_eq_error_iff.mp h with ⟨claim, -, -, rfl⟩ | ⟨-, -, rfl⟩ <;> rfl

/-- The check of the claim is the only one of its kind, and comes right after those of the status
and of the version. -/
theorem bars_iff_of_current (found : q.items[id]? = some r) (pending : r.isPending = true) :
    q.Bars id action r.version actor data ↔
      ∃ topic, r.topic = some topic ∧ ¬ q.Permits topic actor := by
  constructor
  · rintro ⟨refusal, hrefusal, hconcerns⟩
    cases perform_eq_error_iff.mp hrefusal with
    | missing | unlisted | undefined => cases hconcerns
    | obstructed r' _ found' obstacle =>
      obtain rfl : r = r' := Option.some.inj (found.symm.trans found')
      cases obstacle with
      | resolved | outdated => cases hconcerns
      | foreign topic claim _ _ inTopic held other =>
        exact ⟨topic, inTopic, fun permits ↦ other (permits.own claim held)⟩
      | unclaimed topic _ _ inTopic free mode =>
        exact ⟨topic, inTopic, fun permits ↦ permits.free free mode⟩
  · rintro ⟨topic, hinTopic, hforbidden⟩
    cases hcheck : q.checkClaim topic actor with
    | ok => exact absurd (checkClaim_eq_ok_iff.mp hcheck) hforbidden
    | error refusal =>
      have hobstacle : q.Obstructs r r.version actor refusal := by
        rw [← checkWritable_eq_error_iff, checkWritable_of_current pending rfl, hinTopic]
        exact hcheck
      exact ⟨refusal, perform_eq_error_iff.mpr (.obstructed r refusal found hobstacle),
        checkClaim_concernsClaim hcheck⟩

/-- A reviewable came in, and somebody has claimed a topic since. -/
theorem claimsAgree_claimed (mode : ClaimMode) (unclaimed : r.claim = none) (topic : TopicId)
    (holder : User) (automatic : Bool) :
    ((empty mode).run [.insert r, .request holder (.claim topic automatic)]).ClaimsAgree := by
  have hinserted : ((empty mode).insert r).ClaimsAgree := (claimsAgree_empty mode).insert unclaimed
  refine (claimsAgree_after_iff hinserted (.request holder (.claim topic automatic))).mpr ?_
  rintro ⟨_, _, ⟨⟩, -⟩

end Queue

namespace Session

variable {s : Session} {q : Queue} {id : ReviewableId} {r : Reviewable} {topic : TopicId}
  {claim : Claim}

/-- Without a topic anybody may act. In a topic it takes a claim of one's own, or none where none is
required; and explicit claims do not count where claims are not in use. -/
theorem canPerform_iff : s.canPerform r = true ↔ ∀ topic, r.topic = some topic →
    (∀ claim, r.claim = some claim →
      claim.user.id = s.actor.id ∨ s.config.mode = .disabled ∧ claim.automatic = false) ∧
      (r.claim = none → s.config.mode ≠ .required) := by
  unfold canPerform claimEnabled
  cases r.topic with
  | none => simp
  | some topic => cases r.claim with
    | none => cases s.config.mode <;> simp
    | some claim => cases s.config.mode <;> cases hkind : claim.automatic <;> simp [hkind]

/-- An explicit claim of somebody else's that the session does not look at. -/
structure Overlooks (s : Session) (q : Queue) (topic : TopicId) (claim : Claim) : Prop where
  unused : s.config.mode = .disabled
  held : q.topicClaim topic = some claim
  explicit : claim.automatic = false
  foreign : claim.user.id ≠ s.actor.id

/-- A session that goes by the claim and the mode of the queue lets its moderator act where the
queue does, and where it overlooks a claim. -/
theorem canPerform_iff_permits_or_overlooks (sameMode : s.config.mode = q.mode)
    (current : ∀ topic, r.topic = some topic → r.claim = q.topicClaim topic) :
    s.canPerform r = true ↔ ∀ topic, r.topic = some topic →
      q.Permits topic s.actor ∨ ∃ claim, s.Overlooks q topic claim := by
  rw [canPerform_iff]
  refine forall₂_congr fun topic htopic ↦ ?_
  rw [current topic htopic]
  constructor
  · rintro ⟨hown, hfree⟩
    cases hclaim : q.topicClaim topic with
    | none =>
      refine .inl ⟨fun claim hheld ↦ ?_, fun _ ↦ sameMode ▸ hfree hclaim⟩
      simp [hclaim] at hheld
    | some claim =>
      by_cases hmine : claim.user.id = s.actor.id
      · refine .inl ⟨fun held hheld ↦ ?_, fun hnone ↦ ?_⟩
        · obtain rfl := Option.some.inj (hclaim.symm.trans hheld)
          exact hmine
        · simp [hclaim] at hnone
      · obtain ⟨hunused, hexplicit⟩ := (hown claim hclaim).resolve_left hmine
        exact .inr ⟨claim, hunused, hclaim, hexplicit, hmine⟩
  · rintro (permits | ⟨claim, overlooks⟩)
    · exact ⟨fun claim hheld ↦ .inl (permits.own claim hheld),
        fun hfree ↦ sameMode ▸ permits.free hfree⟩
    · refine ⟨fun held hheld ↦ ?_, fun hnone ↦ ?_⟩
      · obtain rfl := Option.some.inj (overlooks.held.symm.trans hheld)
        exact .inr ⟨overlooks.unused, overlooks.explicit⟩
      · simp [overlooks.held] at hnone

/-- An overlooked claim is what the queue refuses the action for. -/
theorem Overlooks.perform_eq (overlooks : s.Overlooks q topic claim)
    (found : q.items[id]? = some r) (pending : r.isPending = true) (inTopic : r.topic = some topic)
    (action : String) (data : Fields) :
    q.perform id action r.version s.actor data =
      .error (.claimConflict topic claim.user.username) :=
  Queue.perform_eq_error_iff.mpr (.obstructed r _ found
    (.foreign topic claim pending rfl inTopic overlooks.held overlooks.foreign))

/-- With the claim mode of the queue and a current copy of what is pending, a session lets its
moderator act exactly where no action in that version is refused because of a claim, or where the
topic is claimed explicitly by somebody else and claims are not in use. There the queue refuses
every action. -/
theorem canPerform_iff_not_bars_or_overlooks (s : Session) (q : Queue) (agree : q.ClaimsAgree)
    (sameMode : s.config.mode = q.mode) (id : ReviewableId) (r : Reviewable)
    (found : q.items[id]? = some r) (pending : r.isPending = true) (action : String)
    (data : Fields) :
    (s.canPerform r = true ↔ ¬ q.Bars id action r.version s.actor data ∨
      ∃ topic claim, r.topic = some topic ∧ s.Overlooks q topic claim) ∧
      ∀ topic claim, r.topic = some topic → s.Overlooks q topic claim →
        q.perform id action r.version s.actor data =
          .error (.claimConflict topic claim.user.username) := by
  refine ⟨?_, fun topic claim inTopic overlooks ↦
    overlooks.perform_eq found pending inTopic action data⟩
  rw [canPerform_iff_permits_or_overlooks sameMode fun topic ↦ agree id r topic found,
    Queue.bars_iff_of_current found pending]
  cases htopic : r.topic with
  | none => simp
  | some topic => simp [@eq_comm _ topic]

/-- Where topics must be claimed, Alice may act on what lies in hers, and Bob is kept out of it. -/
theorem canPerform_iff_not_bars_or_overlooks_of_own_topic :
    let config : Config := { (default : Config) with mode := .required }
    let alice : Session := ⟨.alice, config, [], [], false, false⟩
    let bob : Session := ⟨.bob, config, [], [], false, false⟩
    let q := (Queue.empty .required).run [.insert (.plain 1 (some 10)),
      .request .alice (.claim 10 true)]
    q.ClaimsAgree ∧ ¬ q.Bars 1 "approve_post" 0 alice.actor ∅ ∧
      q.Bars 1 "approve_post" 0 bob.actor ∅ := by
  intro config alice bob q
  have agree : q.ClaimsAgree := Queue.claimsAgree_claimed .required rfl 10 .alice true
  let r := { Reviewable.plain 1 (some 10) with claim := some ⟨.alice, true⟩ }
  have never : ∀ s : Session, s.config = config →
      ¬ ∃ topic claim, r.topic = some topic ∧ s.Overlooks q topic claim := by
    rintro s hconfig ⟨_, _, -, overlooks⟩
    have hunused := overlooks.unused
    simp [hconfig, config] at hunused
  obtain ⟨halice, -⟩ :=
    alice.canPerform_iff_not_bars_or_overlooks q agree rfl 1 r rfl rfl "approve_post" ∅
  obtain ⟨hbob, -⟩ :=
    bob.canPerform_iff_not_bars_or_overlooks q agree rfl 1 r rfl rfl "approve_post" ∅
  refine ⟨agree, (halice.mp rfl).resolve_right (never alice rfl), ?_⟩
  by_contra hnot
  exact absurd (hbob.mpr (.inl hnot)) (by decide)

/-- Claims are not in use, and Bob has claimed a topic explicitly. Alice's session lets her act on
what lies there, and the queue refuses her. -/
theorem canPerform_although_refused :
    let s : Session :=
      ⟨.alice, { (default : Config) with mode := .disabled }, [], [], false, false⟩
    let q := (Queue.empty .disabled).run [.insert (.plain 1 (some 10)),
      .request .bob (.claim 10 false)]
    q.Reachable ∧ q.ClaimsAgree ∧ s.config.mode = q.mode ∧
      ∃ r, q.items[(1 : ReviewableId)]? = some r ∧ r.isPending = true ∧ s.canPerform r = true ∧
        q.perform 1 "approve_post" r.version s.actor ∅ = .error (.claimConflict 10 "bob") := by
  intro s q
  have agree : q.ClaimsAgree := Queue.claimsAgree_claimed .disabled rfl 10 .bob false
  exact ⟨⟨.disabled, _, rfl⟩, agree, rfl, _, rfl, rfl, rfl, rfl⟩

end Session

end Moderation
