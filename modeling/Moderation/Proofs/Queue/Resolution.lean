import Moderation.Proofs.Queue.Run
import Moderation.Proofs.Specimen

/-!
# What an action does

An action on a reviewable makes six demands in a fixed order, and the first one that is not met
is what the queue refuses it for. If all are met, the reviewable is resolved and nothing else
changes, except that the automatic claim of a topic goes with the last of what waits there.
-/

namespace Moderation

/-- A chain of checks fails at its first check, or after it. -/
theorem bind_eq_error_iff {ε α β : Type} {first : Except ε α} {rest : α → Except ε β} {fault : ε} :
    (first >>= rest) = .error fault ↔
      first = .error fault ∨ ∃ a, first = .ok a ∧ rest a = .error fault := by
  cases first with
  | error other => simp [bind, Except.bind]
  | ok a => simp [bind, Except.bind]

theorem Json.bind_asString?_eq_none {value : Option Json}
    (h : ∀ text, value ≠ some (.string text)) : value.bind asString? = none := by
  rcases value with _ | _ | _ | _ | text | _ | _
  case some.string => exact absurd rfl (h text)
  all_goals rfl

theorem Json.bind_asBool?_eq_none {value : Option Json} (h : ∀ b, value ≠ some (.bool b)) :
    value.bind asBool? = none := by
  rcases value with _ | _ | b | _ | _ | _ | _
  case some.bool => exact absurd rfl (h b)
  all_goals rfl

namespace Reviewable

/-- The reviewable offers the action. Without a list of actions it offers all of them. -/
def Offers (r : Reviewable) (action : String) : Prop :=
  r.actions = [] ∨ ∃ offered ∈ r.actions, offered.name = action

/-- The check in the code says the opposite of what a reviewable offers. -/
theorem not_offers_iff {r : Reviewable} {action : String} :
    ¬ r.Offers action ↔ (!r.actions.isEmpty && (r.action? action).isNone) = true := by
  unfold Offers action?
  simp [List.find?_eq_none, List.isEmpty_eq_false_iff]

/-- The reviewable after the claim of a topic was given up, if that of any topic was. -/
def released (r : Reviewable) : Option TopicId → Reviewable
  | none => r
  | some topic => r.withTopicClaim topic none

/-- A release leaves the status as it is. -/
@[simp]
theorem isPending_released (r : Reviewable) (topic : Option TopicId) :
    (r.released topic).isPending = r.isPending := by
  cases topic with
  | none => rfl
  | some topic =>
    change (r.withTopicClaim topic none).isPending = r.isPending
    rw [withTopicClaim_frame]
    rfl

@[simp]
theorem topic_released (r : Reviewable) (topic : Option TopicId) :
    (r.released topic).topic = r.topic := by
  cases topic with
  | none => rfl
  | some topic =>
    change (r.withTopicClaim topic none).topic = r.topic
    rw [withTopicClaim_frame]

end Reviewable

namespace Queue

variable {q : Queue} {actor : User} {topic : TopicId} {id : ReviewableId} {r : Reviewable}
  {action : String} {version : UInt64} {data : Fields} {status : Status} {refusal : Refusal}

/-- What stands in the way of a change to a reviewable. An earlier obstacle hides a later one. -/
inductive Obstructs (q : Queue) (r : Reviewable) (version : UInt64) (actor : User) :
    Refusal → Prop where
  | resolved (done : r.isPending = false) : Obstructs q r version actor (.alreadyResolved r.id)
  | outdated (pending : r.isPending = true) (moved : r.version ≠ version) :
      Obstructs q r version actor (.versionConflict r.id version r.version)
  | foreign (topic : TopicId) (claim : Claim) (pending : r.isPending = true)
      (current : r.version = version) (inTopic : r.topic = some topic)
      (held : q.topicClaim topic = some claim) (other : claim.user.id ≠ actor.id) :
      Obstructs q r version actor (.claimConflict topic claim.user.username)
  | unclaimed (topic : TopicId) (pending : r.isPending = true) (current : r.version = version)
      (inTopic : r.topic = some topic) (free : q.topicClaim topic = none)
      (mode : q.mode = .required) :
      Obstructs q r version actor (.claimRequired topic)

/-- The topic is someone else's, or there has to be a claim and is none. -/
theorem checkClaim_eq_error_iff :
    q.checkClaim topic actor = .error refusal ↔
      (∃ claim, q.topicClaim topic = some claim ∧ claim.user.id ≠ actor.id ∧
        refusal = .claimConflict topic claim.user.username) ∨
      (q.topicClaim topic = none ∧ q.mode = .required ∧ refusal = .claimRequired topic) := by
  unfold checkClaim
  cases hclaim : q.topicClaim topic with
  | none => by_cases hmode : q.mode = .required <;> simp [hmode, @eq_comm _ refusal]
  | some claim => by_cases hown : claim.user.id = actor.id <;> simp [hown, @eq_comm _ refusal]

/-- What is resolved is refused before anything else is looked at. -/
theorem checkWritable_of_resolved (done : r.isPending = false) :
    q.checkWritable r version actor = .error (.alreadyResolved r.id) :=
  if_pos (by simpa [Reviewable.isPending] using done)

/-- Then the version is compared. -/
theorem checkWritable_of_outdated (pending : r.isPending = true) (moved : r.version ≠ version) :
    q.checkWritable r version actor = .error (.versionConflict r.id version r.version) := by
  have hresolved : ¬ r.status.isResolved = true := by simpa [Reviewable.isPending] using pending
  rw [checkWritable, if_neg hresolved, if_pos moved]

/-- The claim comes last, and matters only in a topic. -/
theorem checkWritable_of_current (pending : r.isPending = true) (current : r.version = version) :
    q.checkWritable r version actor = match r.topic with
      | some topic => q.checkClaim topic actor
      | none => .ok () := by
  have hresolved : ¬ r.status.isResolved = true := by simpa [Reviewable.isPending] using pending
  exact (if_neg hresolved).trans (if_neg (not_not_intro current))

/-- A write is refused for the first thing that stands in its way. -/
theorem checkWritable_eq_error_iff :
    q.checkWritable r version actor = .error refusal ↔ q.Obstructs r version actor refusal := by
  constructor
  · intro h
    cases hpending : r.isPending with
    | false =>
      rw [checkWritable_of_resolved hpending] at h
      obtain rfl := Except.error.inj h
      exact .resolved hpending
    | true =>
      by_cases hversion : r.version = version
      · rw [checkWritable_of_current hpending hversion] at h
        cases htopic : r.topic with
        | none => simp [htopic] at h
        | some topic =>
          simp only [htopic] at h
          rcases checkClaim_eq_error_iff.mp h with ⟨claim, hheld, hother, rfl⟩ | ⟨hfree, hmode, rfl⟩
          · exact .foreign topic claim hpending hversion htopic hheld hother
          · exact .unclaimed topic hpending hversion htopic hfree hmode
      · rw [checkWritable_of_outdated hpending hversion] at h
        obtain rfl := Except.error.inj h
        exact .outdated hpending hversion
  · intro h
    cases h with
    | resolved done => exact checkWritable_of_resolved done
    | outdated pending moved => exact checkWritable_of_outdated pending moved
    | foreign topic claim pending current inTopic held other =>
      rw [checkWritable_of_current pending current, inTopic]
      exact checkClaim_eq_error_iff.mpr (.inl ⟨claim, held, other, rfl⟩)
    | unclaimed topic pending current inTopic free mode =>
      rw [checkWritable_of_current pending current, inTopic]
      exact checkClaim_eq_error_iff.mpr (.inr ⟨free, mode, rfl⟩)

/-- What an action on a reviewable is refused for. -/
inductive Refuses (q : Queue) (id : ReviewableId) (action : String) (version : UInt64)
    (actor : User) : Refusal → Prop where
  | missing (absent : q.items[id]? = none) : Refuses q id action version actor (.notFound id)
  | obstructed (r : Reviewable) (refusal : Refusal) (found : q.items[id]? = some r)
      (obstacle : q.Obstructs r version actor refusal) : Refuses q id action version actor refusal
  | unlisted (r : Reviewable) (found : q.items[id]? = some r)
      (writable : q.Writable r version actor) (other : ¬ r.Offers action) :
      Refuses q id action version actor (.unknownAction action)
  | undefined (r : Reviewable) (found : q.items[id]? = some r)
      (writable : q.Writable r version actor) (offered : r.Offers action)
      (unknown : Status.forAction? action = none) :
      Refuses q id action version actor (.unknownAction action)

/-- Everything that an action demands is met. -/
structure Actionable (q : Queue) (id : ReviewableId) (action : String) (version : UInt64)
    (actor : User) (r : Reviewable) (status : Status) : Prop where
  found : q.items[id]? = some r
  writable : q.Writable r version actor
  offered : r.Offers action
  defined : Status.forAction? action = some status

theorem get_eq_error_iff :
    q.get id = .error refusal ↔ q.items[id]? = none ∧ refusal = .notFound id := by
  unfold get
  cases q.items[id]? <;> simp [eq_comm]

/-- An edit is refused for nothing but what stands in the way of every change. -/
theorem update_eq_error_iff {updates : Fields} :
    q.update id version actor updates = .error refusal ↔
      (q.items[id]? = none ∧ refusal = .notFound id) ∨
        ∃ r, q.items[id]? = some r ∧ q.Obstructs r version actor refusal := by
  simp only [update, bind_eq_error_iff, get_eq_error_iff, get_eq_ok_iff,
    checkWritable_eq_error_iff, pure, Except.pure, reduceCtorEq, and_false, exists_false, or_false]

/-- An action has an outcome if it is offered and known. -/
theorem outcome_eq_ok_iff :
    outcome r action = .ok status ↔ r.Offers action ∧ Status.forAction? action = some status := by
  unfold outcome
  by_cases hoffers : r.Offers action
  · rw [if_neg (mt Reviewable.not_offers_iff.mpr (not_not_intro hoffers))]
    cases Status.forAction? action <;> simp [hoffers]
  · rw [if_pos (Reviewable.not_offers_iff.mp hoffers)]
    simp [hoffers]

theorem outcome_eq_error_iff :
    outcome r action = .error refusal ↔
      refusal = .unknownAction action ∧
        (¬ r.Offers action ∨ r.Offers action ∧ Status.forAction? action = none) := by
  unfold outcome
  by_cases hoffers : r.Offers action
  · rw [if_neg (mt Reviewable.not_offers_iff.mpr (not_not_intro hoffers))]
    cases Status.forAction? action <;> simp [hoffers, @eq_comm _ refusal]
  · rw [if_pos (Reviewable.not_offers_iff.mp hoffers)]
    simp [hoffers, @eq_comm _ refusal]

/-- A topic is settled if nothing of it is pending and its claim is automatic. -/
theorem settledTopic_eq_some_iff {among : Option TopicId} :
    q.settledTopic among = some topic ↔
      among = some topic ∧ q.hasPending topic = false ∧
        ∃ claim, q.topicClaim topic = some claim ∧ claim.automatic = true := by
  simp [settledTopic, isSettled, Option.filter_eq_some_iff, Option.any_eq_true]

@[simp]
theorem mode_released (q : Queue) (topic : Option TopicId) : (q.released topic).mode = q.mode := by
  cases topic <;> rfl

/-- What is released loses its claim and nothing else. -/
theorem items_released (q : Queue) (topic : Option TopicId) (id : ReviewableId) :
    (q.released topic).items[id]? = q.items[id]?.map (·.released topic) := by
  cases topic with
  | none => exact (Option.map_id_apply).symm
  | some topic => exact items_setTopicClaim q topic none id

theorem topicClaim_released (q : Queue) (among : Option TopicId) (topic : TopicId) :
    (q.released among).topicClaim topic =
      if among = some topic then none else q.topicClaim topic := by
  cases among with
  | none => rfl
  | some other => simp [released, topicClaim_setTopicClaim]

theorem hasPending_released (q : Queue) (among : Option TopicId) (topic : TopicId) :
    (q.released among).hasPending topic = q.hasPending topic := by
  rw [Bool.eq_iff_iff, hasPending_eq_true_iff, hasPending_eq_true_iff]
  simp [items_released, Option.map_eq_some_iff]

/-! ## The action -/

/-- An action is granted exactly where it can be acted on, and is what its resolution says. -/
theorem perform_ok_iff_actionable {granted : Granted PerformResult} :
    q.perform id action version actor data = .ok granted ↔
      ∃ r status, q.Actionable id action version actor r status ∧
        q.resolution id r status data = granted := by
  rw [perform_eq_ok_iff]
  simp only [outcome_eq_ok_iff]
  constructor
  · rintro ⟨r, status, hfound, hwritable, ⟨hoffers, hstatus⟩, hgranted⟩
    exact ⟨r, status, ⟨hfound, hwritable, hoffers, hstatus⟩, hgranted⟩
  · rintro ⟨r, status, ⟨hfound, hwritable, hoffers, hstatus⟩, hgranted⟩
    exact ⟨r, status, hfound, hwritable, ⟨hoffers, hstatus⟩, hgranted⟩

/-- In every other case it is refused, for the first reason that there is. -/
theorem perform_eq_error_iff :
    q.perform id action version actor data = .error refusal ↔
      q.Refuses id action version actor refusal := by
  rw [perform_eq]
  simp only [bind_eq_error_iff, get_eq_error_iff, get_eq_ok_iff, checkWritable_eq_error_iff,
    outcome_eq_error_iff]
  constructor
  · rintro (⟨habsent, rfl⟩ | ⟨r, hfound, hobstacle | ⟨⟨⟩, hwritable, h⟩⟩)
    · exact .missing habsent
    · exact .obstructed r refusal hfound hobstacle
    · have hwritable := checkWritable_eq_ok_iff.mp hwritable
      rcases h with ⟨rfl, hother | ⟨hoffers, hunknown⟩⟩ | ⟨status, -, h⟩
      · exact .unlisted r hfound hwritable hother
      · exact .undefined r hfound hwritable hoffers hunknown
      · cases h
  · rintro (habsent | ⟨r, _, hfound, hobstacle⟩ | ⟨r, hfound, hwritable, hother⟩ |
      ⟨r, hfound, hwritable, hoffers, hunknown⟩)
    · exact .inl ⟨habsent, rfl⟩
    · exact .inr ⟨r, hfound, .inl hobstacle⟩
    · exact .inr ⟨r, hfound, .inr ⟨(), checkWritable_eq_ok_iff.mpr hwritable,
        .inl ⟨rfl, .inl hother⟩⟩⟩
    · exact .inr ⟨r, hfound, .inr ⟨(), checkWritable_eq_ok_iff.mpr hwritable,
        .inl ⟨rfl, .inr ⟨hoffers, hunknown⟩⟩⟩⟩

/-- The reviewable `s` is `r` as an action with some data leaves it. -/
structure Decides (r : Reviewable) (status : Status) (data : Fields) (s : Reviewable) : Prop where
  frame : s = { r with
    status := s.status
    version := s.version
    rejectReason := s.rejectReason
    sendEmail := s.sendEmail }
  status : s.status = status
  version : s.version.toNat = (r.version.toNat + 1) % UInt64.size
  reason : ∀ text, data["reject_reason"]? = some (.string text) → s.rejectReason = some text
  reasonKept : (∀ text, data["reject_reason"]? ≠ some (.string text)) →
    s.rejectReason = r.rejectReason
  email : ∀ b, data["send_email"]? = some (.bool b) → s.sendEmail = some b
  emailKept : (∀ b, data["send_email"]? ≠ some (.bool b)) → s.sendEmail = r.sendEmail

/-- What the action writes is the status, the version and the data that go with it. -/
theorem resolved_decides (r : Reviewable) (status : Status) (data : Fields) :
    Decides r status data (resolved r status data) where
  frame := rfl
  status := rfl
  version := UInt64.toNat_add r.version 1
  reason text h := by simp [resolved, h, Json.asString?]
  reasonKept h := by simp [resolved, Json.bind_asString?_eq_none h]
  email b h := by simp [resolved, h, Json.asBool?]
  emailKept h := by simp [resolved, Json.bind_asBool?_eq_none h]

/-- What an action that is not refused does. The claim on the topic `settled`, if there is one, goes
with the last of what waits there. -/
structure Resolves (q : Queue) (id : ReviewableId) (r : Reviewable) (status : Status)
    (data : Fields) (settled : Option TopicId) (granted : Granted PerformResult) : Prop where
  settled_iff : ∀ topic, settled = some topic ↔
    r.topic = some topic ∧ granted.queue.hasPending topic = false ∧
      ∃ claim, q.topicClaim topic = some claim ∧ claim.automatic = true
  items : ∃ done, Decides r status data done ∧ ∀ other, granted.queue.items[other]? =
    (if id = other then some done else q.items[other]?).map (·.released settled)
  claims : ∀ topic, granted.queue.topicClaim topic =
    if settled = some topic then none else q.topicClaim topic
  mode : granted.queue.mode = q.mode
  events : granted.events =
    (settled.toList.map fun topic ↦ .claimTransfer ⟨topic, none, none⟩) ++
      [.actionCompleted ⟨[id], some granted.queue.pendingCount, none⟩]
  answer : granted.answer = {
    success := true
    status := some status
    version := some (r.version + 1)
    reviewable := granted.queue.items[id]?
    removed := some [id]
    count := some granted.queue.pendingCount
    unseen := none }

/-- The resolution does what an action is to do, and the release of the topic with it. -/
theorem resolution_resolves (q : Queue) (id : ReviewableId) (r : Reviewable) (status : Status)
    (data : Fields) :
    Resolves q id r status data ((q.put id (resolved r status data)).settledTopic r.topic)
      (q.resolution id r status data) where
  settled_iff topic := by
    rw [resolution, hasPending_released]
    exact settledTopic_eq_some_iff
  items := by
    refine ⟨resolved r status data, resolved_decides r status data, fun other ↦ ?_⟩
    rw [resolution, items_released, items_put]
  claims := topicClaim_released _ _
  mode := mode_released _ _
  events := rfl
  answer := rfl

/-- An action is refused for the first of its demands that is not met, and then nothing happens.
If all are met, it resolves the reviewable. -/
theorem perform_exact (q : Queue) (id : ReviewableId) (action : String) (version : UInt64)
    (actor : User) (data : Fields) :
    ((∃ granted, q.perform id action version actor data = .ok granted) ↔
      ∃ r status, q.Actionable id action version actor r status) ∧
    (∀ refusal, q.perform id action version actor data = .error refusal ↔
      q.Refuses id action version actor refusal) ∧
    (∀ refusal, q.Refuses id action version actor refusal →
      q.after (.request actor (.perform id action version data)) = q ∧
        q.told (.request actor (.perform id action version data)) = []) ∧
    ∀ r status, q.Actionable id action version actor r status → ∃ granted settled,
      q.perform id action version actor data = .ok granted ∧
        q.after (.request actor (.perform id action version data)) = granted.queue ∧
        q.told (.request actor (.perform id action version data)) = granted.events ∧
        Resolves q id r status data settled granted := by
  refine ⟨⟨?_, ?_⟩, fun refusal ↦ perform_eq_error_iff, fun refusal h ↦ ?_, fun r status h ↦ ?_⟩
  · rintro ⟨granted, h⟩
    obtain ⟨r, status, hactionable, -⟩ := perform_ok_iff_actionable.mp h
    exact ⟨r, status, hactionable⟩
  · rintro ⟨r, status, h⟩
    exact ⟨_, perform_ok_iff_actionable.mpr ⟨r, status, h, rfl⟩⟩
  · have hserve : q.serve actor (.perform id action version data) = .error refusal :=
      perform_eq_error_iff.mpr h
    simp [after, told, hserve]
  · have hserve : q.serve actor (.perform id action version data) =
        .ok (q.resolution id r status data) := perform_ok_iff_actionable.mpr ⟨r, status, h, rfl⟩
    exact ⟨_, _, hserve, by simp [after, hserve], by simp [told, hserve],
      resolution_resolves q id r status data⟩

/-- The last reviewable of a topic takes the automatic claim with it, and a reason that is sent
along is kept. -/
theorem perform_exact_last_of_topic :
    let r := { Reviewable.plain 1 (some 10) with claim := some ⟨.alice, true⟩ }
    let data : Fields := .ofMembers [("reject_reason", .string "spam")]
    let q := ofSeed .required [r, Reviewable.plain 2 none]
    ∃ granted, q.perform 1 "reject_user" 0 .alice data = .ok granted ∧
      Resolves q 1 r .rejected data (some 10) granted := by
  intro r data q
  have writable : q.Writable r 0 .alice := by
    refine ⟨rfl, rfl, fun topic htopic ↦ ?_⟩
    obtain rfl : (10 : TopicId) = topic := Option.some.inj htopic
    exact checkClaim_eq_ok_iff.mp (by decide +kernel)
  have actionable : q.Actionable 1 "reject_user" 0 .alice r .rejected :=
    ⟨rfl, writable, .inl rfl, by decide +kernel⟩
  obtain ⟨granted, settled, hok, -, -, hresolves⟩ :=
    (perform_exact q 1 "reject_user" 0 .alice data).2.2.2 r .rejected actionable
  obtain rfl : q.resolution 1 r .rejected data = granted :=
    Except.ok.inj ((perform_ok_iff_actionable.mpr ⟨r, .rejected, actionable, rfl⟩).symm.trans hok)
  have hdone : (q.resolution 1 r .rejected data).queue.hasPending 10 = false := by decide +kernel
  obtain rfl : settled = some 10 :=
    (hresolves.settled_iff 10).mpr ⟨rfl, hdone, ⟨.alice, true⟩, rfl, rfl⟩
  exact ⟨_, hok, hresolves⟩

end Queue

end Moderation
