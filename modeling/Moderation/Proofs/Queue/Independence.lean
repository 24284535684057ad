import Moderation.Proofs.Queue.Resolution

/-!
# Independent requests commute

A request keeps to one place: to the topic that it names or that its reviewable lies in, or to the
reviewable alone if that lies in no topic. It sees nothing of other places but the claim mode, and
how many reviewables wait, which it only reports; and it changes nothing there. So two requests at
different places can be served in either order.
-/

namespace Moderation

/-- What a request is about: a topic, or a reviewable that lies in none. -/
inductive Place where
  | topic (topic : TopicId)
  | single (id : ReviewableId)
deriving DecidableEq, Repr

/-- The event without the number of reviewables that wait. -/
def Event.uncounted : Event → Event
  | .actionCompleted event => .actionCompleted { event with count := none }
  | event => event

/-- The answer without the number of reviewables that wait. -/
def Request.uncounted : (request : Request) → request.Answer → request.Answer
  | .perform .., (answer : PerformResult) => { answer with count := none }
  | _, answer => answer

namespace Queue

variable {q q' q'' : Queue} {p : Place} {actor : User} {topic : TopicId} {id : ReviewableId}
  {r s : Reviewable} {request : Request} {status : Status} {data : Fields} {version : UInt64}

/-- The place of a reviewable. One that is not there is at a place of its own. -/
def place (q : Queue) (id : ReviewableId) : Place :=
  match q.items[id]?.bind (·.topic) with
  | some topic => .topic topic
  | none => .single id

/-- The place that a request keeps to, if there is one. -/
def footprint? (q : Queue) : Request → Option Place
  | .perform id .. => some (q.place id)
  | .claim topic _ => some (.topic topic)
  | .release topic _ => some (.topic topic)
  | .fetch id => some (q.place id)
  | .list => none
  | .update id .. => some (q.place id)

/-- A reviewable is in the place of the topic that it has at the queue. -/
theorem place_eq_topic_iff :
    q.place id = .topic topic ↔ ∃ r, q.items[id]? = some r ∧ r.topic = some topic := by
  unfold place
  cases hr : q.items[id]? with
  | none => simp
  | some r => cases htopic : r.topic <;> simp [htopic]

theorem place_of_topic (found : q.items[id]? = some r) (inTopic : r.topic = some topic) :
    q.place id = .topic topic :=
  place_eq_topic_iff.mpr ⟨r, found, inTopic⟩

/-- Writing claims moves nothing. -/
@[simp]
theorem place_setTopicClaim (q : Queue) (topic : TopicId) (claim : Option Claim)
    (id : ReviewableId) : (q.setTopicClaim topic claim).place id = q.place id := by
  unfold place
  rw [items_setTopicClaim]
  cases q.items[id]? with
  | none => rfl
  | some r => rw [Option.map_some, Reviewable.withTopicClaim_frame]; rfl

/-- Neither does writing a reviewable that stays in its topic. -/
theorem place_put (found : q.items[id]? = some r) (inPlace : s.topic = r.topic)
    (other : ReviewableId) : (q.put id s).place other = q.place other := by
  unfold place
  rw [items_put]
  by_cases heq : id = other
  · subst other
    simp [found, inPlace]
  · rw [if_neg heq]

/-- Two queues show the same to a request that keeps to a place. -/
structure AlikeAt (p : Place) (q q' : Queue) : Prop where
  mode : q.mode = q'.mode
  claims : ∀ topic, p = .topic topic → q.topicClaim topic = q'.topicClaim topic
  items : ∀ id, q.place id = p ∨ q'.place id = p → q.items[id]? = q'.items[id]?

namespace AlikeAt

theorem refl (p : Place) (q : Queue) : AlikeAt p q q :=
  ⟨rfl, fun _ _ ↦ rfl, fun _ _ ↦ rfl⟩

theorem symm (h : AlikeAt p q q') : AlikeAt p q' q where
  mode := h.mode.symm
  claims topic hp := (h.claims topic hp).symm
  items id hid := (h.items id hid.symm).symm

/-- Queues that are alike at a place have the same reviewables there. -/
theorem place_iff (h : AlikeAt p q q') (id : ReviewableId) : q.place id = p ↔ q'.place id = p := by
  constructor
  · intro hid
    have hsame := h.items id (.inl hid)
    rwa [place, ← hsame]
  · intro hid
    have hsame := h.items id (.inr hid)
    rwa [place, hsame]

theorem trans (h : AlikeAt p q q') (h' : AlikeAt p q' q'') : AlikeAt p q q'' where
  mode := h.mode.trans h'.mode
  claims topic hp := (h.claims topic hp).trans (h'.claims topic hp)
  items id hid := by
    have hmid : q'.place id = p := hid.elim (h.place_iff id).mp (h'.place_iff id).mpr
    calc q.items[id]? = q'.items[id]? := h.items id (.inr hmid)
      _ = q''.items[id]? := h'.items id (.inl hmid)

instance : Trans (AlikeAt p) (AlikeAt p) (AlikeAt p) := ⟨AlikeAt.trans⟩

/-- Queues that agree at all places are equal. -/
theorem eq (h : ∀ p, AlikeAt p q q') : q = q' := by
  have hitems : q.items = q'.items := by
    apply Std.ExtTreeMap.ext_getElem?
    intro id
    exact (h (q.place id)).items id (.inl rfl)
  have hclaims : q.claims = q'.claims := by
    apply Std.ExtTreeMap.ext_getElem?
    intro topic
    exact (h (.topic topic)).claims topic rfl
  have hmode : q.mode = q'.mode := (h (.topic 0)).mode
  cases q
  cases q'
  simp_all

theorem topic_iff (h : AlikeAt (.topic topic) q q') {id : ReviewableId} {r : Reviewable} :
    q.items[id]? = some r ∧ r.topic = some topic ↔
      q'.items[id]? = some r ∧ r.topic = some topic := by
  constructor
  · rintro ⟨hfound, htopic⟩
    exact ⟨h.items id (.inl (place_of_topic hfound htopic)) ▸ hfound, htopic⟩
  · rintro ⟨hfound, htopic⟩
    exact ⟨h.items id (.inr (place_of_topic hfound htopic)) ▸ hfound, htopic⟩

end AlikeAt

/-- The claim of a topic is of no concern elsewhere. -/
theorem alikeAt_setTopicClaim (elsewhere : p ≠ .topic topic) (claim : Option Claim) :
    AlikeAt p q (q.setTopicClaim topic claim) where
  mode := rfl
  claims other hp := by
    have hne : topic ≠ other := by
      rintro rfl
      exact elsewhere hp
    rw [topicClaim_setTopicClaim_of_ne q claim hne]
  items id hid := by
    rw [place_setTopicClaim, or_self] at hid
    rw [items_setTopicClaim]
    cases hr : q.items[id]? with
    | none => rfl
    | some r =>
      have hother : r.topic ≠ some topic := by
        intro htopic
        exact elsewhere (hid.symm.trans (place_of_topic hr htopic))
      rw [Option.map_some, Reviewable.withTopicClaim, if_neg hother]

/-- Nor is a reviewable, as long as it stays in its topic. -/
theorem alikeAt_put (found : q.items[id]? = some r) (inPlace : s.topic = r.topic)
    (elsewhere : p ≠ q.place id) : AlikeAt p q (q.put id s) where
  mode := rfl
  claims _ _ := rfl
  items other hother := by
    rw [place_put found inPlace, or_self] at hother
    have hne : id ≠ other := by
      rintro rfl
      exact elsewhere hother.symm
    rw [items_put_of_ne q s hne]

/-- An edit moves nothing to another topic. -/
theorem topic_edited (r : Reviewable) (updates : Fields) : (edited r updates).topic = r.topic := by
  obtain ⟨category, fields, hframe⟩ := edited_frame r updates
  rw [hframe]

/-- A request changes nothing at the other places. -/
theorem Effect.alikeAt {events : List Event} {x : Place} (h : Effect q actor request q' events)
    (footprint : q.footprint? request = some x) (elsewhere : p ≠ x) : AlikeAt p q q' := by
  cases h with
  | fetched | listed | claimKept | claimLeft => exact .refl p q
  | claimTaken topic automatic own =>
    obtain rfl := Option.some.inj footprint
    exact alikeAt_setTopicClaim elsewhere _
  | claimReleased topic automatic claim held own =>
    obtain rfl := Option.some.inj footprint
    exact alikeAt_setTopicClaim elsewhere none
  | updated id version updates r found writable =>
    obtain rfl := Option.some.inj footprint
    exact alikeAt_put found (topic_edited r updates) elsewhere
  | performed id action version data r status found writable granted unsettled =>
    obtain rfl := Option.some.inj footprint
    exact alikeAt_put found rfl elsewhere
  | settled id action version data r status topic found writable granted inTopic last =>
    obtain rfl := Option.some.inj footprint
    have htopic : p ≠ .topic topic := place_of_topic found inTopic ▸ elsewhere
    have hput : AlikeAt p q (q.put id (resolved r status data)) := alikeAt_put found rfl elsewhere
    exact hput.trans (alikeAt_setTopicClaim htopic none)

/-- The place of a request is still the same after a request at another place. -/
theorem AlikeAt.footprint? (h : AlikeAt p q q') (footprint : q.footprint? request = some p) :
    q'.footprint? request = some p := by
  cases request with
  | perform id | fetch id | update id =>
    exact congrArg some ((h.place_iff id).mp (Option.some.inj footprint))
  | claim topic | release topic => exact footprint
  | list => cases footprint

/-! ## A request sees its place only -/

namespace AlikeAt

/-- What is done to both queues leaves them alike. -/
theorem setTopicClaim (h : AlikeAt (.topic topic) q q') (claim : Option Claim) :
    AlikeAt (.topic topic) (q.setTopicClaim topic claim) (q'.setTopicClaim topic claim) where
  mode := h.mode
  claims other hother := by
    obtain rfl : topic = other := Place.topic.inj hother
    simp
  items id hid := by
    rw [place_setTopicClaim, place_setTopicClaim] at hid
    rw [items_setTopicClaim, items_setTopicClaim, h.items id hid]

theorem put (h : AlikeAt p q q') (found : q.items[id]? = some r) (inPlace : s.topic = r.topic)
    (hid : q.place id = p) : AlikeAt p (q.put id s) (q'.put id s) where
  mode := h.mode
  claims := h.claims
  items other hother := by
    have found' : q'.items[id]? = some r := h.items id (.inl hid) ▸ found
    rw [place_put found inPlace, place_put found' inPlace] at hother
    rw [items_put, items_put, h.items other hother]

/-- Whether a topic has something pending is seen in its place. -/
theorem hasPending (h : AlikeAt (.topic topic) q q') :
    q.hasPending topic = q'.hasPending topic := by
  rw [Bool.eq_iff_iff, hasPending_eq_true_iff, hasPending_eq_true_iff]
  apply exists_congr
  intro id
  apply exists_congr
  intro r
  rw [← and_assoc, ← and_assoc, h.topic_iff]

theorem isSettled (h : AlikeAt (.topic topic) q q') : q.isSettled topic = q'.isSettled topic := by
  rw [Queue.isSettled, Queue.isSettled, h.hasPending, h.claims topic rfl]

/-- A topic that something at the place lies in. -/
theorem settledTopic (h : AlikeAt p q q') {among : Option TopicId}
    (within : ∀ topic, among = some topic → p = .topic topic) :
    q.settledTopic among = q'.settledTopic among := by
  cases among with
  | none => rfl
  | some topic =>
    obtain rfl := within topic rfl
    rw [Queue.settledTopic, Queue.settledTopic, Option.filter_some, Option.filter_some, h.isSettled]

/-- A topic that is done is released in both queues or in none. -/
theorem released (h : AlikeAt p q q') {among : Option TopicId}
    (within : ∀ topic, among = some topic → p = .topic topic) :
    AlikeAt p (q.released among) (q'.released among) := by
  cases among with
  | none => exact h
  | some topic =>
    obtain rfl := within topic rfl
    exact h.setTopicClaim none

theorem checkClaim (h : AlikeAt (.topic topic) q q') (actor : User) :
    q.checkClaim topic actor = q'.checkClaim topic actor := by
  rw [Queue.checkClaim, Queue.checkClaim, h.claims topic rfl, h.mode]

/-- The checks of a write look at the reviewable and at the claim of its topic, and nowhere else. -/
theorem checkWritable (h : AlikeAt p q q')
    (within : ∀ topic, r.topic = some topic → p = .topic topic) (version : UInt64) (actor : User) :
    q.checkWritable r version actor = q'.checkWritable r version actor := by
  unfold Queue.checkWritable
  cases htopic : r.topic with
  | none => rfl
  | some topic =>
    obtain rfl := within topic htopic
    simp only [h.checkClaim]

end AlikeAt

/-- What the actor is answered and the others are told, up to the number of reviewables that
wait. -/
def verdict (q : Queue) (actor : User) (request : Request) :
    Except Refusal (request.Answer × List Event) :=
  (q.serve actor request).map fun granted ↦
    (request.uncounted granted.answer, granted.events.map Event.uncounted)

/-- Two servings of a request come to the same as far as its place goes. -/
inductive Matches (p : Place) (request : Request) :
    Except Refusal (Granted request.Answer) → Except Refusal (Granted request.Answer) → Prop where
  | refused (refusal : Refusal) : Matches p request (.error refusal) (.error refusal)
  | granted (g g' : Granted request.Answer) (queue : AlikeAt p g.queue g'.queue)
      (events : g.events.map Event.uncounted = g'.events.map Event.uncounted)
      (answer : request.uncounted g.answer = request.uncounted g'.answer) :
      Matches p request (.ok g) (.ok g')

namespace AlikeAt

/-- A claim goes the same way in both queues. -/
theorem claim (h : AlikeAt (.topic topic) q q') (actor : User) (automatic : Bool) :
    Matches (.topic topic) (.claim topic automatic) (q.claim topic actor automatic)
      (q'.claim topic actor automatic) := by
  have taken : AlikeAt (.topic topic) (q.setTopicClaim topic (some ⟨actor, automatic⟩))
      (q'.setTopicClaim topic (some ⟨actor, automatic⟩)) := h.setTopicClaim _
  unfold Queue.claim
  rw [h.claims topic rfl]
  cases q'.topicClaim topic with
  | none => exact .granted _ _ taken rfl rfl
  | some existing =>
    by_cases hown : existing.user.id = actor.id
    · simp only [if_neg (not_not_intro hown)]
      split
      · exact .granted _ _ h rfl rfl
      · exact .granted _ _ taken rfl rfl
    · simp only [if_pos hown]
      exact .refused _

/-- So does a release. -/
theorem unclaim (h : AlikeAt (.topic topic) q q') (actor : User) (automatic : Bool) :
    Matches (.topic topic) (.release topic automatic) (q.unclaim topic actor automatic)
      (q'.unclaim topic actor automatic) := by
  unfold Queue.unclaim
  rw [h.claims topic rfl]
  cases q'.topicClaim topic with
  | none => exact .granted _ _ h rfl rfl
  | some existing =>
    by_cases hown : existing.user.id = actor.id
    · simp only [if_neg (not_not_intro hown)]
      split
      · exact .granted _ _ h rfl rfl
      · exact .granted _ _ (h.setTopicClaim none) rfl rfl
    · simp only [if_pos hown]
      exact .refused _

/-- So does a look at a reviewable. -/
theorem get (h : AlikeAt p q q') (hid : q.place id = p) : q.get id = q'.get id := by
  rw [Queue.get, Queue.get, h.items id (.inl hid)]

/-- So does an edit. -/
theorem update (h : AlikeAt p q q') (hid : q.place id = p) (version : UInt64) (actor : User)
    (updates : Fields) :
    Matches p (.update id version updates) (q.update id version actor updates)
      (q'.update id version actor updates) := by
  unfold Queue.update
  rw [← h.get hid]
  cases hget : q.get id with
  | error refusal => exact .refused refusal
  | ok r =>
    have hfound := get_eq_ok_iff.mp hget
    have within : ∀ topic, r.topic = some topic → p = .topic topic :=
      fun topic htopic ↦ hid.symm.trans (place_of_topic hfound htopic)
    simp only [bind, Except.bind, ← h.checkWritable within]
    cases q.checkWritable r version actor with
    | error refusal => exact .refused refusal
    | ok _ => exact .granted _ _ (h.put hfound (topic_edited r updates) hid) rfl rfl

/-- An action resolves the same reviewable in both queues, and releases the topic in both or in
none. -/
theorem resolution (h : AlikeAt p q q') (found : q.items[id]? = some r) (hid : q.place id = p)
    (action : String) (version : UInt64) (status : Status) (data : Fields) :
    Matches p (.perform id action version data) (.ok (q.resolution id r status data))
      (.ok (q'.resolution id r status data)) := by
  have within : ∀ topic, r.topic = some topic → p = .topic topic :=
    fun topic htopic ↦ hid.symm.trans (place_of_topic found htopic)
  have hput : AlikeAt p (q.put id (resolved r status data)) (q'.put id (resolved r status data)) :=
    h.put found rfl hid
  have hsettled := hput.settledTopic within
  have hqueue : AlikeAt p (q.resolution id r status data).queue
      (q'.resolution id r status data).queue := by
    simp only [Queue.resolution, ← hsettled]
    apply hput.released
    intro topic htopic
    exact within topic (settledTopic_eq_some_iff.mp htopic).1
  have hitem : (q.resolution id r status data).queue.items[id]? =
      (q'.resolution id r status data).queue.items[id]? := by
    simp only [Queue.resolution, items_released, items_put_self, hsettled]
  refine .granted _ _ hqueue ?_ ?_
  · simp only [Queue.resolution, hsettled, List.map_append]
    rfl
  · exact congrArg (fun item ↦ { (q.resolution id r status data).answer with
      reviewable := item
      count := none }) hitem

/-- An action goes the same way in both queues, up to the count of what is pending. -/
theorem perform (h : AlikeAt p q q') (hid : q.place id = p) (action : String) (version : UInt64)
    (actor : User) (data : Fields) :
    Matches p (.perform id action version data) (q.perform id action version actor data)
      (q'.perform id action version actor data) := by
  rw [perform_eq, perform_eq, ← h.get hid]
  cases hget : q.get id with
  | error refusal => exact .refused refusal
  | ok r =>
    have hfound := get_eq_ok_iff.mp hget
    have within : ∀ topic, r.topic = some topic → p = .topic topic :=
      fun topic htopic ↦ hid.symm.trans (place_of_topic hfound htopic)
    simp only [bind, Except.bind, ← h.checkWritable within]
    cases q.checkWritable r version actor with
    | error refusal => exact .refused refusal
    | ok _ =>
      cases outcome r action with
      | error refusal => exact .refused refusal
      | ok status => exact h.resolution hfound hid action version status data

/-- A request is served alike by queues that agree at its place. -/
theorem serve (h : AlikeAt p q q') (actor : User) (footprint : q.footprint? request = some p) :
    Matches p request (q.serve actor request) (q'.serve actor request) := by
  cases request with
  | perform id action version data =>
    exact h.perform (Option.some.inj footprint) action version actor data
  | claim topic automatic =>
    obtain rfl := Option.some.inj footprint
    exact h.claim actor automatic
  | release topic automatic =>
    obtain rfl := Option.some.inj footprint
    exact h.unclaim actor automatic
  | fetch id =>
    simp only [Queue.serve, ← h.get (Option.some.inj footprint)]
    cases q.get id with
    | error refusal => exact .refused refusal
    | ok r => exact .granted _ _ h rfl rfl
  | list => cases footprint
  | update id version updates => exact h.update (Option.some.inj footprint) version actor updates

/-- A request is judged by its footprint. -/
theorem verdict (h : AlikeAt p q q') (actor : User) (footprint : q.footprint? request = some p) :
    q.verdict actor request = q'.verdict actor request := by
  have hserve := h.serve actor footprint
  unfold Queue.verdict
  generalize q.serve actor request = answer at hserve
  generalize q'.serve actor request = answer' at hserve
  cases hserve with
  | refused refusal => rfl
  | granted g g' queue events answer => simp only [Except.map, events, answer]

/-- Queues that are alike at the footprint of a request are so after it. -/
theorem after (h : AlikeAt p q q') (actor : User) (footprint : q.footprint? request = some p) :
    AlikeAt p (q.after (.request actor request)) (q'.after (.request actor request)) := by
  have hserve := h.serve actor footprint
  simp only [Queue.after]
  generalize q.serve actor request = answer at hserve
  generalize q'.serve actor request = answer' at hserve
  cases hserve with
  | refused refusal => exact h
  | granted g g' queue events answer => exact queue

end AlikeAt

/-- Outside of its footprint a request changes nothing. -/
theorem alikeAt_after {x : Place} (footprint : q.footprint? request = some x) (elsewhere : p ≠ x)
    (actor : User) : AlikeAt p q (q.after (.request actor request)) := by
  rcases q.request_cases actor request with ⟨-, hafter, -⟩ | ⟨-, heffect⟩
  · rw [hafter]
    exact .refl p q
  · exact heffect.alikeAt footprint elsewhere

/-- Two requests at different places leave the same queue in either order, and each of them is
answered and told of alike, up to the number of reviewables that wait. -/
theorem independent_requests_commute (q : Queue) (a b : User) (first second : Request)
    (x y : Place) (hx : q.footprint? first = some x) (hy : q.footprint? second = some y)
    (apart : x ≠ y) :
    (q.after (.request a first)).after (.request b second) =
        (q.after (.request b second)).after (.request a first) ∧
      (q.after (.request b second)).verdict a first = q.verdict a first ∧
      (q.after (.request a first)).verdict b second = q.verdict b second := by
  set qa := q.after (.request a first)
  set qb := q.after (.request b second)
  have seenFirst : AlikeAt x q qb := alikeAt_after hy apart b
  have seenSecond : AlikeAt y q qa := alikeAt_after hx apart.symm a
  have hx' : qb.footprint? first = some x := seenFirst.footprint? hx
  have hy' : qa.footprint? second = some y := seenSecond.footprint? hy
  refine ⟨AlikeAt.eq fun p ↦ ?_, (seenFirst.verdict a hx).symm, (seenSecond.verdict b hy).symm⟩
  -- Where one of the two works, the other changes nothing; elsewhere neither does.
  by_cases hpx : p = x
  · subst p
    calc AlikeAt x (qa.after (.request b second)) qa := (alikeAt_after hy' apart b).symm
      AlikeAt x qa (qb.after (.request a first)) := seenFirst.after a hx
  · by_cases hpy : p = y
    · subst p
      calc AlikeAt y (qa.after (.request b second)) qb := (seenSecond.after b hy).symm
        AlikeAt y qb (qb.after (.request a first)) := alikeAt_after hx' hpx a
    · calc AlikeAt p (qa.after (.request b second)) qa := (alikeAt_after hy' hpy b).symm
        AlikeAt p qa q := (alikeAt_after hx hpx a).symm
        AlikeAt p q qb := alikeAt_after hy hpy b
        AlikeAt p qb (qb.after (.request a first)) := alikeAt_after hx' hpx a

/-- The number of reviewables that wait is the one thing that shows which action came first. -/
theorem independent_requests_commute_two_actions :
    let q := ofSeed .required
      [{ Reviewable.plain 1 (some 10) with claim := some ⟨.alice, true⟩ }, Reviewable.plain 2 none]
    let first : Request := .perform 1 "approve_post" 0 ∅
    let second : Request := .perform 2 "ignore_post" 0 ∅
    q.footprint? first = some (.topic 10) ∧ q.footprint? second = some (.single 2) ∧
      (q.after (.request .alice first)).after (.request .bob second) =
        (q.after (.request .bob second)).after (.request .alice first) ∧
      (q.after (.request .bob second)).verdict .alice first = q.verdict .alice first ∧
      (q.after (.request .bob second)).told (.request .alice first) ≠
        q.told (.request .alice first) := by
  intro q first second
  have hfirst : q.footprint? first = some (.topic 10) := by decide +kernel
  have hsecond : q.footprint? second = some (.single 2) := by decide +kernel
  have hcommute := independent_requests_commute q .alice .bob first second _ _ hfirst hsecond
    (by decide)
  exact ⟨hfirst, hsecond, hcommute.1, hcommute.2.1, by decide +kernel⟩

end Queue

end Moderation
