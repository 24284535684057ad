import Moderation.Proofs.Queue.Effect

/-!
# Runs of a queue

A queue lives through requests of its actors, changes of the claim mode and reviewables that come
in. A request that is refused leaves no trace. The lemmas here say what one operation makes of one
reviewable, of the claim on one topic and of what the sessions are told; a run is a row of
operations.
-/

namespace Moderation

namespace Event

def transfer? : Event → Option ClaimTransfer
  | .claimTransfer event => some event
  | _ => none

def completion? : Event → Option ActionCompleted
  | .actionCompleted event => some event
  | _ => none

end Event

/-- The events about claims, in their order. -/
def transfers (events : List Event) : List ClaimTransfer := events.filterMap Event.transfer?

/-- The events about actions, in their order. -/
def completions (events : List Event) : List ActionCompleted :=
  events.filterMap Event.completion?

/-- The reviewables that are reported as resolved. -/
def removals (completions : List ActionCompleted) : List ReviewableId :=
  completions.flatMap (·.removed)

/-- The claim on a topic as the last event about it has it. -/
def claimAfter (topic : TopicId) (claim : Option Claim) (events : List ClaimTransfer) :
    Option Claim :=
  events.foldl (fun claim event ↦ if event.topic = topic then event.claim else claim) claim

@[simp]
theorem transfers_append (first rest : List Event) :
    transfers (first ++ rest) = transfers first ++ transfers rest := List.filterMap_append

@[simp]
theorem completions_append (first rest : List Event) :
    completions (first ++ rest) = completions first ++ completions rest := List.filterMap_append

@[simp]
theorem removals_append (first rest : List ActionCompleted) :
    removals (first ++ rest) = removals first ++ removals rest := List.flatMap_append

/-- Events may be heard one part after another. -/
@[simp]
theorem claimAfter_append (topic : TopicId) (claim : Option Claim)
    (first rest : List ClaimTransfer) :
    claimAfter topic claim (first ++ rest) =
      claimAfter topic (claimAfter topic claim first) rest := List.foldl_append

/-- Events of other topics leave the claim as it is. -/
theorem claimAfter_of_never {topic : TopicId} {events : List ClaimTransfer}
    (h : ∀ event ∈ events, event.topic ≠ topic) (claim : Option Claim) :
    claimAfter topic claim events = claim := by
  induction events with
  | nil => rfl
  | cons event rest ih =>
    obtain ⟨hne, hrest⟩ := List.forall_mem_cons.mp h
    change claimAfter topic (if event.topic = topic then _ else _) rest = _
    rw [if_neg hne, ih hrest]

/-- Events about a topic settle the claim on it, whatever it was. -/
theorem claimAfter_of_mem {topic : TopicId} {events : List ClaimTransfer}
    (h : ∃ event ∈ events, event.topic = topic) (claim other : Option Claim) :
    claimAfter topic claim events = claimAfter topic other events := by
  induction events generalizing claim other with
  | nil => simp at h
  | cons event rest ih =>
    change claimAfter topic (if event.topic = topic then _ else _) rest =
      claimAfter topic (if event.topic = topic then _ else _) rest
    by_cases htopic : event.topic = topic
    · rw [if_pos htopic, if_pos htopic]
    · have hrest : ∃ event ∈ rest, event.topic = topic := by simpa [htopic] using h
      exact ih hrest _ _

/-- Hearing again what was heard last changes nothing. -/
theorem claimAfter_replay (topic : TopicId) (claim : Option Claim)
    {known again : List ClaimTransfer} (h : again <:+ known) :
    claimAfter topic claim (known ++ again) = claimAfter topic claim known := by
  obtain ⟨earlier, rfl⟩ := h
  rw [claimAfter_append, claimAfter_append]
  by_cases hmem : ∃ event ∈ again, event.topic = topic
  · exact claimAfter_of_mem hmem _ _
  · exact claimAfter_of_never (by simpa using hmem) _

namespace Queue

variable {q q' : Queue} {actor : User} {request : Request} {events : List Event}
  {topic : TopicId} {id : ReviewableId} {r : Reviewable}

inductive Operation where
  | request (actor : User) (request : Request)
  | setMode (mode : ClaimMode)
  | insert (r : Reviewable)

/-- What a request would change: the reviewable, the version that the change was prepared against,
and whether it resolves the reviewable. -/
structure Change where
  id : ReviewableId
  version : UInt64
  resolves : Bool
deriving DecidableEq, Repr

def Operation.change? : Operation → Option Change
  | .request _ (.perform id _ version _) => some ⟨id, version, true⟩
  | .request _ (.update id version _) => some ⟨id, version, false⟩
  | _ => none

def grants (q : Queue) : Operation → Bool
  | .request actor request => (q.serve actor request).isOk
  | _ => true

/-- The queue after an operation. -/
def after (q : Queue) : Operation → Queue
  | .request actor request => match q.serve actor request with
    | .ok granted => granted.queue
    | .error _ => q
  | .setMode mode => q.setMode mode
  | .insert r => q.insert r

/-- What the sessions are told of an operation. -/
def told (q : Queue) : Operation → List Event
  | .request actor request => match q.serve actor request with
    | .ok granted => granted.events
    | .error _ => []
  | _ => []

/-- A change to one reviewable that an operation makes. -/
def acceptedChange (q : Queue) (id : ReviewableId) (op : Operation) : Option Change :=
  op.change?.filter fun change ↦ change.id == id && q.grants op

def run (q : Queue) (ops : List Operation) : Queue := ops.foldl after q

/-- Everything that the sessions are told in a run. -/
def broadcast (q : Queue) : List Operation → List Event
  | [] => []
  | op :: rest => q.told op ++ (q.after op).broadcast rest

/-- The changes to one reviewable that are accepted in a run, in the order of acceptance. -/
def accepted (q : Queue) (id : ReviewableId) : List Operation → List Change
  | [] => []
  | op :: rest => (q.acceptedChange id op).toList ++ (q.after op).accepted id rest

@[simp]
theorem run_nil (q : Queue) : q.run [] = q := rfl

@[simp]
theorem run_cons (q : Queue) (op : Operation) (rest : List Operation) :
    q.run (op :: rest) = (q.after op).run rest := rfl

theorem run_append (q : Queue) (first rest : List Operation) :
    q.run (first ++ rest) = (q.run first).run rest := List.foldl_append

/-- What a run tells is what its parts tell, one after another. -/
theorem broadcast_append (q : Queue) (first rest : List Operation) :
    q.broadcast (first ++ rest) = q.broadcast first ++ (q.run first).broadcast rest := by
  induction first generalizing q with
  | nil => rfl
  | cons op first ih =>
    rw [List.cons_append, broadcast, broadcast, ih, List.append_assoc, run_cons]

/-- A property that every operation of a run keeps holds after the run. -/
theorem run_induction {P : Queue → Prop} {ops : List Operation}
    (step : ∀ q, ∀ op ∈ ops, P q → P (q.after op)) (start : P q) : P (q.run ops) := by
  induction ops generalizing q with
  | nil => exact start
  | cons op rest ih =>
    rw [run_cons]
    exact ih (fun q op hop ↦ step q op (List.mem_cons_of_mem _ hop))
      (step q op List.mem_cons_self start)

/-- A queue of reviewables is one that they came into. -/
theorem ofSeed_eq_run (mode : ClaimMode) (seed : List Reviewable) :
    ofSeed mode seed = (empty mode).run (seed.map .insert) := by
  rw [ofSeed, run, List.foldl_map]
  rfl

/-- A request is refused and nothing happens, or it has one of the known effects. -/
theorem request_cases (q : Queue) (actor : User) (request : Request) :
    (q.grants (.request actor request) = false ∧ q.after (.request actor request) = q ∧
        q.told (.request actor request) = []) ∨
      (q.grants (.request actor request) = true ∧
        Effect q actor request (q.after (.request actor request))
          (q.told (.request actor request))) := by
  cases hserve : q.serve actor request with
  | error refusal =>
    exact .inl ⟨by simp [grants, hserve, Except.isOk, Except.toBool], by simp [after, hserve],
      by simp [told, hserve]⟩
  | ok granted =>
    refine .inr ⟨by simp [grants, hserve, Except.isOk, Except.toBool], ?_⟩
    simpa only [after, told, hserve] using serve_effect hserve

/-- The claim that a reviewable shows once it came in: the one of its topic, and else its own. -/
def shownIn (q : Queue) (r : Reviewable) : Option Claim := (r.topic.bind q.topicClaim).or r.claim

/-- A reviewable that comes in shows the claim that it brings or that the topic has. -/
theorem items_insert (q : Queue) (new : Reviewable) (id : ReviewableId) :
    (q.insert new).items[id]? =
      if new.id = id then some { new with claim := q.shownIn new } else q.items[id]? := by
  unfold insert shownIn
  rcases new with ⟨_, _, _, _, _ | topic, _ | own, _⟩
  · simp [Std.ExtTreeMap.getElem?_insert]
  · simp [Std.ExtTreeMap.getElem?_insert]
  all_goals cases hclaim : q.topicClaim topic <;> simp [Std.ExtTreeMap.getElem?_insert, hclaim]

/-- The topic has that claim from then on. -/
theorem topicClaim_insert (q : Queue) (new : Reviewable) (topic : TopicId) :
    (q.insert new).topicClaim topic =
      if new.topic = some topic then q.shownIn new else q.topicClaim topic := by
  unfold insert shownIn
  rcases new with ⟨_, _, _, _, _ | other, _ | own, _⟩
  · rfl
  · rfl
  all_goals
    cases hclaim : q.topicClaim other <;> by_cases heq : other = topic <;>
      simp_all [topicClaim, Std.ExtTreeMap.getElem?_insert]

/-! ## Claims -/

/-- The claim on a topic moves as the sessions are told. -/
theorem Effect.topicClaim (h : Effect q actor request q' events) (topic : TopicId) :
    q'.topicClaim topic = claimAfter topic (q.topicClaim topic) (transfers events) := by
  cases h with
  | fetched | listed | claimKept | claimLeft | updated | performed => rfl
  | claimTaken other automatic own =>
    rw [topicClaim_setTopicClaim]
    rfl
  | claimReleased other automatic claim held own =>
    rw [topicClaim_setTopicClaim]
    rfl
  | settled id action version data r status other found writable granted inTopic last =>
    rw [topicClaim_setTopicClaim]
    rfl

/-- What is told is the whole story of a topic's claim. -/
theorem topicClaim_after_request (q : Queue) (actor : User) (request : Request) (topic : TopicId) :
    (q.after (.request actor request)).topicClaim topic =
      claimAfter topic (q.topicClaim topic) (transfers (q.told (.request actor request))) := by
  rcases q.request_cases actor request with ⟨-, hafter, htold⟩ | ⟨-, heffect⟩
  · rw [hafter, htold]
    rfl
  · exact heffect.topicClaim topic

/-- Sessions are never asked to load the queue anew. -/
theorem Effect.resync_notMem (h : Effect q actor request q' events) : .resync ∉ events := by
  cases h <;> simp [completed]

/-- A request never tells anybody to start over. -/
theorem resync_notMem_told (q : Queue) (actor : User) (request : Request) :
    .resync ∉ q.told (.request actor request) := by
  rcases q.request_cases actor request with ⟨-, -, htold⟩ | ⟨-, heffect⟩
  · simp [htold]
  · exact heffect.resync_notMem

/-- The claim that a reviewable shows after some events. -/
def shownAfter (r : Reviewable) (events : List ClaimTransfer) : Option Claim :=
  match r.topic with
  | some topic => claimAfter topic r.claim events
  | none => r.claim

/-- What a granted request makes of one reviewable. -/
inductive ItemEffect (q : Queue) (actor : User) (id : ReviewableId) (r s : Reviewable) :
    Request → Prop where
  | kept (request : Request)
      (other : ∀ change, (Operation.request actor request).change? = some change → change.id ≠ id)
      (same : s = { r with claim := s.claim }) : ItemEffect q actor id r s request
  | edited (version : UInt64) (updates : Fields) (writable : q.Writable r version actor)
      (eq : s = edited r updates) : ItemEffect q actor id r s (.update id version updates)
  | resolved (action : String) (version : UInt64) (data : Fields) (status : Status)
      (writable : q.Writable r version actor) (granted : outcome r action = .ok status)
      (eq : s = { resolved r status data with claim := s.claim }) :
      ItemEffect q actor id r s (.perform id action version data)

@[simp]
theorem shownAfter_nil (r : Reviewable) : shownAfter r [] = r.claim := by
  unfold shownAfter
  cases r.topic <;> rfl

/-- Writing the claim of a topic shows in a reviewable as the event about it does. -/
theorem claim_withTopicClaim_eq_shownAfter (r : Reviewable) (event : ClaimTransfer) :
    (r.withTopicClaim event.topic event.claim).claim = shownAfter r [event] := by
  rw [Reviewable.claim_withTopicClaim]
  unfold shownAfter
  cases htopic : r.topic with
  | none => simp
  | some topic =>
    by_cases heq : event.topic = topic
    · simp [claimAfter, heq]
    · simp [claimAfter, heq, Ne.symm heq]

/-- A request leaves a reviewable in the queue, maybe changed, and tells its claim. -/
theorem Effect.item (h : Effect q actor request q' events) (found : q.items[id]? = some r) :
    ∃ s, q'.items[id]? = some s ∧ ItemEffect q actor id r s request ∧
      s.claim = shownAfter r (transfers events) := by
  cases h with
  | fetched | listed | claimKept | claimLeft =>
    exact ⟨r, found, .kept _ (by simp [Operation.change?]) rfl, (shownAfter_nil r).symm⟩
  | claimTaken topic automatic own =>
    refine ⟨_, by rw [items_setTopicClaim, found, Option.map_some],
      .kept _ (by simp [Operation.change?]) (r.withTopicClaim_frame topic _), ?_⟩
    exact claim_withTopicClaim_eq_shownAfter r (.taken topic ⟨actor, automatic⟩)
  | claimReleased topic automatic claim held own =>
    refine ⟨_, by rw [items_setTopicClaim, found, Option.map_some],
      .kept _ (by simp [Operation.change?]) (r.withTopicClaim_frame topic _), ?_⟩
    exact claim_withTopicClaim_eq_shownAfter r (.released topic)
  | updated other version updates r' found' writable =>
    by_cases hid : other = id
    · subst other
      obtain rfl : r' = r := by simpa [found'] using found
      refine ⟨_, items_put_self q id _, .edited version updates writable rfl, ?_⟩
      obtain ⟨category, fields, hframe⟩ := edited_frame r' updates
      rw [hframe]
      exact (shownAfter_nil r').symm
    · exact ⟨r, by rw [items_put_of_ne q _ hid, found],
        .kept _ (by simpa [Operation.change?] using hid) rfl, (shownAfter_nil r).symm⟩
  | performed other action version data r' status found' writable granted unsettled =>
    by_cases hid : other = id
    · subst other
      obtain rfl : r' = r := by simpa [found'] using found
      exact ⟨_, items_put_self q id _, .resolved action version data status writable granted rfl,
        (shownAfter_nil r').symm⟩
    · exact ⟨r, by rw [items_put_of_ne q _ hid, found],
        .kept _ (by simpa [Operation.change?] using hid) rfl, (shownAfter_nil r).symm⟩
  | settled other action version data r' status topic found' writable granted inTopic last =>
    by_cases hid : other = id
    · subst other
      obtain rfl : r' = r := by simpa [found'] using found
      refine ⟨_, by rw [items_setTopicClaim, items_put_self, Option.map_some],
        .resolved action version data status writable granted
          (Reviewable.withTopicClaim_frame _ topic none), ?_⟩
      exact claim_withTopicClaim_eq_shownAfter (resolved r' status data) (.released topic)
    · refine ⟨_, by rw [items_setTopicClaim, items_put_of_ne q _ hid, found, Option.map_some],
        .kept _ (by simpa [Operation.change?] using hid) (r.withTopicClaim_frame topic none), ?_⟩
      exact claim_withTopicClaim_eq_shownAfter r (.released topic)

theorem ne_of_found {other : ReviewableId} (found : q.items[other]? = some r)
    (missing : q.items[id]? = none) : other ≠ id := by
  rintro rfl
  simp [missing] at found

/-- Nothing comes in by a request. -/
theorem Effect.item_none (h : Effect q actor request q' events) (missing : q.items[id]? = none) :
    q'.items[id]? = none := by
  cases h with
  | fetched | listed | claimKept | claimLeft => exact missing
  | claimTaken | claimReleased => rw [items_setTopicClaim, missing, Option.map_none]
  | updated other version updates r found writable =>
    rw [items_put_of_ne q _ (ne_of_found found missing), missing]
  | performed other action version data r status found writable granted unsettled =>
    rw [items_put_of_ne q _ (ne_of_found found missing), missing]
  | settled other action version data r status topic found writable granted inTopic last =>
    rw [items_setTopicClaim, items_put_of_ne q _ (ne_of_found found missing), missing,
      Option.map_none]

/-- What there is after a request was there before. -/
theorem Effect.item_before {s : Reviewable} (h : Effect q actor request q' events)
    (found : q'.items[id]? = some s) :
    ∃ r, q.items[id]? = some r ∧ ItemEffect q actor id r s request ∧
      s.claim = shownAfter r (transfers events) := by
  cases hr : q.items[id]? with
  | none => simp [h.item_none hr] at found
  | some r =>
    obtain ⟨s', hs', hitem, hclaim⟩ := h.item hr
    obtain rfl : s' = s := by simpa [hs'] using found
    exact ⟨r, rfl, hitem, hclaim⟩

/-! ## What is pending -/

/-- Every known action resolves. -/
theorem forAction?_isResolved {action : String} {status : Status}
    (h : Status.forAction? action = some status) : status.isResolved = true := by
  unfold Status.forAction? at h
  obtain ⟨pair, hpair, rfl⟩ := Option.map_eq_some_iff.mp h
  have hmem := List.mem_of_find?_eq_some hpair
  simp only [Status.ofBeginning, List.mem_cons, List.not_mem_nil, or_false] at hmem
  rcases hmem with rfl | rfl | rfl | rfl | rfl | rfl | rfl <;> rfl

/-- What an action comes to is resolved. -/
theorem outcome_isResolved {action : String} {status : Status}
    (h : outcome r action = .ok status) : status.isResolved = true := by
  unfold outcome at h
  split at h
  · cases h
  · cases hstatus : Status.forAction? action with
    | none => simp [hstatus] at h
    | some found =>
      obtain rfl : found = status := by simpa [hstatus] using h
      exact forAction?_isResolved hstatus

/-- The reviewables that a request resolves if it is granted. -/
def resolvedBy : Request → List ReviewableId
  | .perform id .. => [id]
  | _ => []

/-- A request tells as removed what it resolved. -/
theorem Effect.removals_eq (h : Effect q actor request q' events) :
    removals (completions events) = resolvedBy request := by
  cases h <;> rfl

/-- A reviewable is pending until the sessions are told that it is not. -/
theorem Effect.isPending (h : Effect q actor request q' events) (found : q.items[id]? = some r)
    {s : Reviewable} (found' : q'.items[id]? = some s) :
    s.isPending = true ↔ r.isPending = true ∧ id ∉ removals (completions events) := by
  obtain ⟨r', hr', hitem, -⟩ := h.item_before found'
  obtain rfl : r' = r := by simpa [hr'] using found
  rw [h.removals_eq]
  cases hitem with
  | kept request other same =>
    have hpending : s.isPending = r'.isPending := by rw [same]; rfl
    have hnot : id ∉ resolvedBy request := by
      cases request with
      | perform target action version data =>
        simpa [resolvedBy] using (other ⟨target, version, true⟩ rfl).symm
      | _ => simp [resolvedBy]
    simp [hpending, hnot]
  | edited version updates writable eq =>
    obtain ⟨category, fields, hframe⟩ := edited_frame r' updates
    rw [eq, hframe]
    simp [Reviewable.isPending, resolvedBy]
  | resolved action version data status writable granted eq =>
    rw [eq]
    simp [Reviewable.isPending, resolved, outcome_isResolved granted, resolvedBy]

end Queue

end Moderation
