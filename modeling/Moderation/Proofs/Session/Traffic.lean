import Moderation.Proofs.Session.Waiting
import Moderation.Proofs.Throughout

/-!
# Answers and events under way

A session that is subscribed learns of a claim twice, by the answer to its own request and by the
event that everybody is sent. Events keep their order, but an answer may come before or after any of
them, and it goes over the claims of the session whenever it comes. So the session has the claims of
the queue, as far as nothing on its way tells it otherwise, until an answer is taken for news that
is not: one that was overtaken by the events of a later claim, or one to an automatic release that
left an explicit claim.
-/

namespace Moderation

/-- A request of the session, and the answer to it once the queue gave one. -/
structure Call where
  waiting : Task.Waiting
  /-- The answer, and how many events the queue had sent by then. -/
  answer : Option (waiting.request.Reply × Nat)

namespace Call

/-- What the answer says, once there is one. -/
def said (call : Call) : Option ClaimTransfer :=
  call.answer.bind fun (reply, _) ↦ call.waiting.request.said reply

/-- How many events the queue had sent when it answered. -/
def asOf (call : Call) : Nat := call.answer.elim 0 (·.2)

/-- The claim on a topic when the queue answered, given the events that it sent. -/
def claimThen (call : Call) (sent : List Event) (topic : TopicId) : Option Claim :=
  claimAfter topic none (transfers (sent.take call.asOf))

/-- The answer is to an automatic release that left an explicit claim of the actor's. -/
def LeftClaim (call : Call) (actor : User) (sent : List Event) (topic : TopicId) : Prop :=
  call.waiting.request = .release topic true ∧
    ∃ claim, call.claimThen sent topic = some claim ∧ claim.user.id = actor.id ∧
      claim.automatic = false

/-- The answer says what claim there was, or it is to a release that left one. -/
structure Truthful (call : Call) (actor : User) (sent : List Event) : Prop where
  asOf_le : call.asOf ≤ sent.length
  right : ∀ event, call.said = some event →
    call.claimThen sent event.topic = event.claim ∨ call.LeftClaim actor sent event.topic

end Call

/-- A queue and a session that is subscribed to it, with all that is under way between them. -/
structure Traffic where
  queue : Queue
  session : Session.State
  /-- The events that the queue sent. -/
  sent : List Event
  /-- How many of them have arrived. -/
  heard : Nat
  /-- The requests that are not answered yet, and those whose answers have not arrived. -/
  calls : List Call

namespace Traffic

inductive Move where
  /-- The session starts to do something about a claim. -/
  | start (op : Session.ClaimOp)
  /-- A request of the session gets to the queue, which answers it. -/
  | serve (n : Nat)
  /-- An answer gets to the session. -/
  | deliver (n : Nat)
  /-- The next event gets to the session. -/
  | hear
  /-- Somebody else asks the queue. -/
  | act (actor : User) (request : Request)

/-- The events that have not arrived. -/
def underWay (t : Traffic) : List Event := t.sent.drop t.heard

/-- Nothing is under way. -/
def Settled (t : Traffic) : Prop := t.calls = [] ∧ t.underWay = []

def operate (t : Traffic) (op : Queue.Operation) : Traffic :=
  { t with queue := t.queue.after op, sent := t.sent ++ t.queue.told op }

/-- The session works on a task until it waits again. -/
def work (t : Traffic) (task : Task Unit) : Traffic :=
  { t with
    session := (task.proceed t.session).1
    calls := t.calls ++ ((task.proceed t.session).2.map fun w ↦ ⟨w, none⟩).toList }

/-- The queue serves a request of the session. -/
def answer (s : Session) (t : Traffic) (n : Nat) (w : Task.Waiting) : Traffic :=
  let served := t.operate (.request s.actor w.request)
  { served with
    calls := t.calls.set n ⟨w, some ((t.queue.reply s.actor w.request).1, served.sent.length)⟩ }

def step (s : Session) (t : Traffic) : Move → Traffic
  | .start op => t.work (s.claimTask op)
  | .serve n => match t.calls[n]? with
    | some ⟨w, none⟩ => t.answer s n w
    | _ => t
  | .deliver n => match t.calls[n]? with
    | some ⟨w, some (reply, _)⟩ => { t with calls := t.calls.eraseIdx n }.work (w.next reply)
    | _ => t
  | .hear => match t.underWay with
    | event :: _ => { t with heard := t.heard + 1 }.work (s.applyEvent event)
    | [] => t
  | .act actor request => t.operate (.request actor request)

def run (s : Session) (t : Traffic) (moves : List Move) : Traffic := moves.foldl (step s) t

/-- A session that just loaded a queue. -/
def loaded (queue : Queue) (state : Session.State) : Traffic where
  queue
  session := { state with store := (state.store.replaceAll queue.pending).store }
  sent := []
  heard := 0
  calls := []

/-- Once the session hears the events that are under way, it has the claims of the queue. -/
def Agrees (t : Traffic) : Prop :=
  t.session.store.ComesTo (transfers t.underWay) t.queue.topicClaim

/-- The move delivers an answer about a topic in which the session has something, with another claim
than the queue has, and no event about the topic is under way. -/
def Misleads (t : Traffic) (move : Move) : Prop :=
  ∃ n call event, move = .deliver n ∧ t.calls[n]? = some call ∧ call.said = some event ∧
    t.session.store.Tracks event.topic ∧ event.claim ≠ t.queue.topicClaim event.topic ∧
    ∀ later ∈ transfers t.underWay, later.topic ≠ event.topic

/-- An event about the topic that was sent after the answer has arrived. -/
def Overtaken (t : Traffic) (call : Call) (topic : TopicId) : Prop :=
  ∃ later ∈ transfers ((t.sent.take t.heard).drop call.asOf), later.topic = topic

/-- The claims of the queue are the ones that it sent, and the answers come from there. -/
structure Sound (s : Session) (t : Traffic) : Prop where
  heard : t.heard ≤ t.sent.length
  claims : ∀ topic, t.queue.topicClaim topic = claimAfter topic none (transfers t.sent)
  events : .resync ∉ t.sent
  notes : ∀ call ∈ t.calls, call.waiting.Notes
  answers : ∀ call ∈ t.calls, call.Truthful s.actor t.sent

variable {s : Session} {t : Traffic}

end Traffic

namespace Call

variable {call : Call} {actor : User} {sent : List Event}

/-- Events after the answer do not matter for what was true then. -/
theorem claimThen_append (h : call.asOf ≤ sent.length) (more : List Event) :
    call.claimThen (sent ++ more) = call.claimThen sent := by
  unfold claimThen
  rw [List.take_append_of_le_length h]

/-- A call stays truthful when more is sent. -/
theorem Truthful.append (h : call.Truthful actor sent) (more : List Event) :
    call.Truthful actor (sent ++ more) where
  asOf_le := by
    rw [List.length_append]
    exact Nat.le_add_right_of_le h.asOf_le
  right := by
    unfold LeftClaim
    rw [claimThen_append h.asOf_le]
    exact h.right

/-- A call without an answer says nothing, so it is truthful. -/
theorem truthful_waiting (w : Task.Waiting) : Truthful ⟨w, none⟩ actor sent where
  asOf_le := Nat.zero_le _
  right := by simp [Call.said]

end Call

namespace Traffic

variable {s : Session} {t : Traffic}

/-! ## Steps -/

/-- A session that starts something leaves its store alone and at most asks. -/
theorem step_start (s : Session) (t : Traffic) (op : Session.ClaimOp) :
    ∃ state calls, step s t (.start op) = { t with session := state, calls := t.calls ++ calls } ∧
      state.store = t.session.store ∧ ∀ call ∈ calls, call.waiting.Notes ∧ call.answer = none := by
  obtain ⟨hstore, hnotes⟩ := s.claimTask_proceed op t.session
  refine ⟨_, _, rfl, hstore, fun call hcall ↦ ?_⟩
  obtain ⟨w, hw, rfl⟩ := Option.map_eq_some_iff.mp (Option.mem_toList.mp hcall)
  exact ⟨hnotes w hw, rfl⟩

/-- A session that gets an answer writes it down. -/
theorem step_deliver {n : Nat} {call : Call} (hcall : t.calls[n]? = some call)
    (notes : call.waiting.Notes) (answered : call.answer ≠ none) :
    ∃ state, step s t (.deliver n) = { t with session := state, calls := t.calls.eraseIdx n } ∧
      state.store = t.session.store.note call.said := by
  obtain ⟨w, answer⟩ := call
  cases answer with
  | none => exact absurd rfl answered
  | some answer =>
    obtain ⟨hnone, hstore⟩ := notes answer.1 t.session
    refine ⟨((w.next answer.1).proceed t.session).1, ?_, hstore⟩
    simp [step, hcall, work, hnone]

theorem step_deliver_of_not_answered {n : Nat} (h : ∀ call, t.calls[n]? = some call →
    call.answer = none) : step s t (.deliver n) = t := by
  unfold step
  dsimp only
  split
  · rename_i hcall
    simpa using h _ hcall
  · rfl

/-- A task that does not wait leaves the calls as they are. -/
theorem work_of_eq_none {task : Task Unit} (h : (task.proceed t.session).2 = none) :
    t.work task = { t with session := (task.proceed t.session).1 } := by
  simp [work, h]

theorem step_hear_claim {event : ClaimTransfer} {rest : List Event}
    (h : t.underWay = .claimTransfer event :: rest) :
    ∃ state, step s t .hear = { t with session := state, heard := t.heard + 1 } ∧
      state.store = t.session.store.hear (.inl event) := by
  refine ⟨((s.applyEvent (.claimTransfer event)).proceed t.session).1, ?_, rfl⟩
  simp only [step, h]
  exact work_of_eq_none rfl

theorem step_hear_action {event : ActionCompleted} {rest : List Event}
    (h : t.underWay = .actionCompleted event :: rest) :
    ∃ state, step s t .hear = { t with session := state, heard := t.heard + 1 } ∧
      state.store = t.session.store.hear (.inr event) := by
  refine ⟨((s.applyEvent (.actionCompleted event)).proceed t.session).1, ?_, rfl⟩
  simp only [step, h]
  exact work_of_eq_none rfl

theorem Sound.of_calls (h : t.Sound s) (state : Session.State) {calls : List Call}
    (hcalls : ∀ call ∈ calls, call.waiting.Notes ∧ call.Truthful s.actor t.sent) :
    Sound s { t with session := state, calls } where
  heard := h.heard
  claims := h.claims
  events := h.events
  notes call hcall := (hcalls call hcall).1
  answers call hcall := (hcalls call hcall).2

/-- What somebody does at the queue is sent, and the calls stay as they are. -/
theorem Sound.operate (h : t.Sound s) (actor : User) (request : Request) :
    (t.operate (.request actor request)).Sound s where
  heard := by
    change _ ≤ (t.sent ++ _).length
    rw [List.length_append]
    exact Nat.le_add_right_of_le h.heard
  claims topic := by
    change (t.queue.after _).topicClaim topic = claimAfter topic none (transfers (t.sent ++ _))
    rw [Queue.topicClaim_after_request, h.claims, transfers_append, claimAfter_append]
  events := by
    change .resync ∉ t.sent ++ _
    rw [List.mem_append, not_or]
    exact ⟨h.events, t.queue.resync_notMem_told actor request⟩
  notes := h.notes
  answers call hcall := (h.answers call hcall).append _

/-- The queue answers with what is true at that point. -/
theorem Sound.answer (h : t.Sound s) {n : Nat} {w : Task.Waiting}
    (hcall : t.calls[n]? = some ⟨w, none⟩) : (t.answer s n w).Sound s := by
  have hserved := h.operate s.actor w.request
  have hnotes : w.Notes := h.notes _ (List.mem_of_getElem? hcall)
  refine hserved.of_calls _ fun call hmem ↦ ?_
  rcases List.mem_or_eq_of_mem_set hmem with hold | rfl
  · exact ⟨hserved.notes call hold, hserved.answers call hold⟩
  · refine ⟨hnotes, Nat.le_refl _, fun event hsaid ↦ ?_⟩
    have hthen : ∀ topic, (Call.claimThen ⟨w, some ((t.queue.reply s.actor w.request).1,
        (t.operate (.request s.actor w.request)).sent.length)⟩
        (t.operate (.request s.actor w.request)).sent topic) =
        (t.operate (.request s.actor w.request)).queue.topicClaim topic := by
      intro topic
      rw [hserved.claims]
      simp [Call.claimThen, Call.asOf]
    unfold Call.LeftClaim
    rw [hthen]
    exact Queue.said_reply hsaid

/-- The next event was sent and is heard now. -/
theorem Sound.of_heard (h : t.Sound s) (state : Session.State) (some_underWay : t.underWay ≠ []) :
    Sound s { t with session := state, heard := t.heard + 1 } where
  heard := Nat.succ_le_of_lt (List.drop_eq_nil_iff.not.mp some_underWay |> Nat.lt_of_not_le)
  claims := h.claims
  events := h.events
  notes := h.notes
  answers := h.answers

/-- The next event to arrive is one about a claim or one about an action. -/
theorem Sound.step_hear (h : t.Sound s) {event : Event} {rest : List Event}
    (hnext : t.underWay = event :: rest) :
    ∃ heard state, step s t .hear = { t with session := state, heard := t.heard + 1 } ∧
      state.store = t.session.store.hear heard ∧
      heard.elim .claimTransfer .actionCompleted = event := by
  cases event with
  | claimTransfer event =>
    obtain ⟨state, hstep, hstore⟩ := step_hear_claim (s := s) hnext
    exact ⟨.inl event, state, hstep, hstore, rfl⟩
  | actionCompleted event =>
    obtain ⟨state, hstep, hstore⟩ := step_hear_action (s := s) hnext
    exact ⟨.inr event, state, hstep, hstore, rfl⟩
  | resync =>
    refine absurd (List.mem_of_mem_drop (i := t.heard) ?_) h.events
    change _ ∈ t.underWay
    simp [hnext]

/-- Every move keeps all that has to hold. -/
theorem Sound.step (h : t.Sound s) (move : Move) : (step s t move).Sound s := by
  cases move with
  | start op =>
    obtain ⟨state, calls, hstep, -, hnew⟩ := step_start s t op
    rw [hstep]
    refine h.of_calls state fun call hcall ↦ ?_
    rcases List.mem_append.mp hcall with hold | hmem
    · exact ⟨h.notes call hold, h.answers call hold⟩
    · obtain ⟨hnotes, hwaiting⟩ := hnew call hmem
      refine ⟨hnotes, ?_⟩
      obtain ⟨w, answer⟩ := call
      obtain rfl : answer = none := hwaiting
      exact Call.truthful_waiting w
  | serve n =>
    unfold Traffic.step
    dsimp only
    split
    · rename_i hcall
      exact h.answer hcall
    · exact h
  | deliver n =>
    by_cases hanswered : ∃ call, t.calls[n]? = some call ∧ call.answer ≠ none
    · obtain ⟨call, hcall, hanswer⟩ := hanswered
      obtain ⟨state, hstep, -⟩ := step_deliver (s := s) hcall
        (h.notes call (List.mem_of_getElem? hcall)) hanswer
      rw [hstep]
      refine h.of_calls state fun call hcall ↦ ?_
      have hold := List.mem_of_mem_eraseIdx hcall
      exact ⟨h.notes call hold, h.answers call hold⟩
    · rw [step_deliver_of_not_answered (by simpa using hanswered)]
      exact h
  | hear =>
    cases hnext : t.underWay with
    | nil => simpa [Traffic.step, hnext] using h
    | cons event rest =>
      obtain ⟨_, state, hstep, -⟩ := h.step_hear hnext
      rw [hstep]
      exact h.of_heard state (by simp [hnext])
  | act actor request => exact h.operate actor request

/-- What is told goes to the end of what is under way. -/
theorem underWay_operate (h : t.heard ≤ t.sent.length) (op : Queue.Operation) :
    (t.operate op).underWay = t.underWay ++ t.queue.told op :=
  List.drop_append_of_le_length h

/-- A store that will agree once all is heard will agree with the new events, too. -/
theorem Agrees.operate (agrees : t.Agrees) (h : t.heard ≤ t.sent.length) (actor : User)
    (request : Request) : (t.operate (.request actor request)).Agrees := by
  intro id copy topic hcopy htopic
  rw [underWay_operate h, transfers_append, claimAfter_append, agrees id copy topic hcopy htopic]
  exact (t.queue.topicClaim_after_request actor request topic).symm

/-- Only the delivery of an answer can mislead. -/
theorem not_misleads {move : Move} (h : ∀ n, move ≠ .deliver n) : ¬ t.Misleads move := by
  rintro ⟨n, _, _, hmove, -⟩
  exact h n hmove

/-- A delivered answer spoils the agreement if and only if it misleads. -/
theorem Agrees.deliver_iff (agrees : t.Agrees) (h : t.Sound s) (n : Nat) :
    (step s t (.deliver n)).Agrees ↔ ¬ t.Misleads (.deliver n) := by
  by_cases hanswered : ∃ call, t.calls[n]? = some call ∧ call.answer ≠ none
  · obtain ⟨call, hcall, hanswer⟩ := hanswered
    obtain ⟨state, hstep, hstore⟩ := step_deliver (s := s) hcall
      (h.notes call (List.mem_of_getElem? hcall)) hanswer
    have hafter : (step s t (.deliver n)).Agrees ↔
        (t.session.store.note call.said).ComesTo (transfers t.underWay) t.queue.topicClaim := by
      rw [hstep, ← hstore]
      rfl
    rw [hafter]
    cases hsaid : call.said with
    | none =>
      refine iff_of_true agrees ?_
      rintro ⟨_, other, event, ⟨⟩, hother, hevent, -⟩
      obtain rfl : call = other := Option.some.inj (hcall.symm.trans hother)
      simp [hsaid] at hevent
    | some event =>
      refine (Store.ComesTo.hear_answer_iff agrees event).trans (not_congr ⟨?_, ?_⟩)
      · exact fun hmisled ↦ ⟨n, call, event, rfl, hcall, hsaid, hmisled⟩
      · rintro ⟨_, other, event', ⟨⟩, hother, hevent, hmisled⟩
        obtain rfl : call = other := Option.some.inj (hcall.symm.trans hother)
        obtain rfl : event = event' := Option.some.inj (hsaid.symm.trans hevent)
        exact hmisled
  · rw [step_deliver_of_not_answered (by simpa using hanswered)]
    refine iff_of_true agrees ?_
    rintro ⟨_, call, event, ⟨⟩, hcall, hsaid, -⟩
    refine hanswered ⟨call, hcall, fun hnone ↦ ?_⟩
    simp [Call.said, hnone] at hsaid

/-- The session goes on to agree with the queue unless it is misled. -/
theorem Agrees.step_iff (agrees : t.Agrees) (h : t.Sound s) (move : Move) :
    (step s t move).Agrees ↔ ¬ t.Misleads move := by
  cases move with
  | start op =>
    refine iff_of_true ?_ (not_misleads (by simp))
    obtain ⟨state, calls, hstep, hstore, -⟩ := step_start s t op
    rw [hstep]
    unfold Agrees
    rw [hstore]
    exact agrees
  | serve n =>
    refine iff_of_true ?_ (not_misleads (by simp))
    unfold Traffic.step
    dsimp only
    split
    · exact agrees.operate h.heard s.actor _
    · exact agrees
  | deliver n => exact agrees.deliver_iff h n
  | hear =>
    refine iff_of_true ?_ (not_misleads (by simp))
    cases hnext : t.underWay with
    | nil => simpa [Traffic.step, hnext] using agrees
    | cons event rest =>
      obtain ⟨heard, state, hstep, hstore, rfl⟩ := h.step_hear hnext
      have hrest : t.sent.drop (t.heard + 1) = rest := by
        rw [List.drop_add_one_eq_tail_drop]
        exact congrArg List.tail hnext
      rw [hstep]
      unfold Agrees underWay
      rw [hstore, hrest]
      unfold Agrees at agrees
      rw [hnext] at agrees
      cases heard with
      | inl event => exact agrees.hear_claim
      | inr event => exact Store.ComesTo.hear_action agrees event
  | act actor request =>
    exact iff_of_true (agrees.operate h.heard actor request) (not_misleads (by simp))

/-- What was sent from some point on has arrived or is under way. -/
theorem Sound.arrived_or_underWay (h : t.Sound s) {n : Nat} {event : ClaimTransfer}
    (hevent : event ∈ transfers (t.sent.drop n)) :
    event ∈ transfers ((t.sent.take t.heard).drop n) ∨ event ∈ transfers t.underWay := by
  rw [← List.mem_append, ← transfers_append]
  rcases Nat.le_total n t.heard with hle | hle
  · have hlength : n ≤ (t.sent.take t.heard).length := by
      rwa [List.length_take_of_le h.heard]
    rw [underWay, ← List.drop_append_of_le_length hlength, List.take_append_drop]
    exact hevent
  · have hsub : t.sent.drop n <:+ t.underWay := List.drop_suffix_drop_left t.sent hle
    rw [transfers_append]
    exact List.mem_append_right _ ((hsub.sublist.filterMap Event.transfer?).subset hevent)

/-- An answer that misleads was overtaken, or is to a release that left a claim. -/
theorem Sound.of_misleads (h : t.Sound s) {move : Move} (misleads : t.Misleads move) :
    ∃ n call event, move = .deliver n ∧ t.calls[n]? = some call ∧ call.said = some event ∧
      (t.Overtaken call event.topic ∨ call.LeftClaim s.actor t.sent event.topic) := by
  obtain ⟨n, call, event, hmove, hcall, hsaid, -, hwrong, hnever⟩ := misleads
  have htruthful := h.answers call (List.mem_of_getElem? hcall)
  refine ⟨n, call, event, hmove, hcall, hsaid, ?_⟩
  refine (htruthful.right event hsaid).imp_left fun hthen ↦ ?_
  by_contra hnot
  apply hwrong
  have hsince : ∀ later ∈ transfers (t.sent.drop call.asOf), later.topic ≠ event.topic := by
    intro later hlater habout
    rcases h.arrived_or_underWay hlater with harrived | hunderWay
    · exact hnot ⟨later, harrived, habout⟩
    · exact hnever later hunderWay habout
  calc event.claim
    _ = claimAfter event.topic event.claim (transfers (t.sent.drop call.asOf)) :=
      (claimAfter_of_never hsince _).symm
    _ = claimAfter event.topic none
        (transfers (t.sent.take call.asOf) ++ transfers (t.sent.drop call.asOf)) := by
      rw [claimAfter_append, ← hthen, Call.claimThen]
    _ = t.queue.topicClaim event.topic := by
      rw [← transfers_append, List.take_append_drop, h.claims]

/-! ## Runs -/

/-- A run keeps all that has to hold. -/
theorem Sound.run (h : t.Sound s) (moves : List Move) : (run s t moves).Sound s := by
  induction moves generalizing t with
  | nil => exact h
  | cons move rest ih => exact ih (h.step move)

theorem loaded_sound {q : Queue} (free : ∀ topic, q.topicClaim topic = none)
    (state : Session.State) : (loaded q state).Sound s where
  heard := Nat.le_refl 0
  claims := free
  events := List.not_mem_nil
  notes := by simp [loaded]
  answers := by simp [loaded]

/-- A store that was just loaded agrees with the queue. -/
theorem loaded_agrees {q : Queue} (keyed : q.Keyed) (agree : q.ClaimsAgree)
    (state : Session.State) : (loaded q state).Agrees := by
  intro id copy topic hcopy htopic
  change (state.store.replaceAll q.pending).store.get? id = some copy at hcopy
  rw [Store.get?, Store.entries_replaceAll_pending keyed, Option.map_map] at hcopy
  obtain ⟨r, hr, rfl⟩ := Option.map_eq_some_iff.mp hcopy
  exact agree id r topic (Queue.getElem?_pendingItems_eq_some_iff.mp hr).1 htopic

/-- A queue that was filled without claims has none. -/
theorem free_ofSeed (mode : ClaimMode) {seed : List Reviewable}
    (unclaimed : ∀ r ∈ seed, r.claim = none) :
    (Queue.ofSeed mode seed).ClaimsAgree ∧
      ∀ topic, (Queue.ofSeed mode seed).topicClaim topic = none := by
  rw [Queue.ofSeed_eq_run]
  refine Queue.run_induction (P := fun q ↦ q.ClaimsAgree ∧ ∀ topic, q.topicClaim topic = none)
    ?_ ⟨Queue.claimsAgree_empty mode, fun topic ↦ by simp [Queue.empty, Queue.topicClaim]⟩
  rintro q op hop ⟨agree, free⟩
  obtain ⟨r, hr, rfl⟩ := List.mem_map.mp hop
  refine ⟨agree.insert (unclaimed r hr), fun topic ↦ ?_⟩
  change (q.insert r).topicClaim topic = none
  rw [Queue.topicClaim_insert]
  split
  · rename_i htopic
    rw [Queue.shownIn_of_topic htopic, free, unclaimed r hr, Option.none_or]
  · exact free topic

/-- A session that loaded a queue without claims and hears all its events has the claims of the queue
throughout, up to what is under way, exactly when no answer misleads it. So it has them whenever
nothing is under way, unless an answer misled it that was overtaken or that is to a release that left
a claim. -/
theorem claims_agree_once_delivered (s : Session) (mode : ClaimMode) (seed : List Reviewable)
    (unclaimed : ∀ r ∈ seed, r.claim = none) (state : Session.State) (moves : List Move) :
    let start := loaded (Queue.ofSeed mode seed) state
    ((∀ before, before <+: moves → (run s start before).Agrees) ↔
        ∀ before move, before ++ [move] <+: moves → ¬ (run s start before).Misleads move) ∧
      ((∀ before move, before ++ [move] <+: moves → ¬ (run s start before).Misleads move) →
        (run s start moves).Settled →
          ∀ id copy topic, (run s start moves).session.store.get? id = some copy →
            copy.topic = some topic → copy.claim = (run s start moves).queue.topicClaim topic) ∧
      ∀ before move, (run s start before).Misleads move →
        ∃ n call event, move = .deliver n ∧ (run s start before).calls[n]? = some call ∧
          call.said = some event ∧ ((run s start before).Overtaken call event.topic ∨
            call.LeftClaim s.actor (run s start before).sent event.topic) := by
  intro start
  obtain ⟨agree, free⟩ := free_ofSeed mode unclaimed
  have keyed : (Queue.ofSeed mode seed).Keyed :=
    Queue.Reachable.keyed ⟨mode, _, Queue.ofSeed_eq_run mode seed⟩
  have hsound : start.Sound s := loaded_sound free state
  have hagrees : start.Agrees := loaded_agrees keyed agree state
  have hthroughout := throughout_iff (step s) (fun t ↦ t.Sound s ∧ t.Agrees) Misleads
    (fun t move ⟨hsound, hagrees⟩ ↦
      (and_iff_right (hsound.step move)).trans (hagrees.step_iff hsound move))
    ⟨hsound, hagrees⟩ moves
  have hiff : (∀ before, before <+: moves → (run s start before).Agrees) ↔
      ∀ before move, before ++ [move] <+: moves → ¬ (run s start before).Misleads move :=
    Iff.trans ⟨fun h before hprefix ↦ ⟨hsound.run before, h before hprefix⟩,
      fun h before hprefix ↦ (h before hprefix).2⟩ hthroughout
  refine ⟨hiff, ?_, fun before move ↦ (hsound.run before).of_misleads⟩
  rintro hnever ⟨-, hunderWay⟩ id copy topic hcopy htopic
  have hfinal := hiff.mpr hnever moves List.prefix_rfl id copy topic hcopy htopic
  rwa [hunderWay] at hfinal

/-- The answer to a claim arrives before the event that tells of it. -/
theorem claims_agree_after_early_answer :
    let s : Session := ⟨.alice, default, [], [], false, false⟩
    let seed := [Reviewable.plain 1 (some 10), .plain 2 (some 10)]
    let start := loaded (Queue.ofSeed .optional seed) default
    let moves := [.start (.claim 1), .serve 0, .deliver 0, .hear]
    (∀ r ∈ seed, r.claim = none) ∧
      (∀ before move, before ++ [move] <+: moves → ¬ (run s start before).Misleads move) ∧
      (run s start moves).Settled ∧ ((run s start moves).session.store.get? 2).map (·.claim) =
        some ((run s start moves).queue.topicClaim 10) := by
  intro s seed start moves
  have unclaimed : ∀ r ∈ seed, r.claim = none := by simp [seed, Reviewable.plain]
  have hnever : ∀ before move, before ++ [move] <+: moves →
      ¬ (run s start before).Misleads move := by
    rintro before move hprefix ⟨n, call, event, rfl, hcall, hsaid, -, hwrong, -⟩
    obtain ⟨rfl, rfl⟩ : before = [.start (.claim 1), .serve 0] ∧ n = 0 := by
      obtain ⟨rest, hrest⟩ := hprefix
      rcases before with _ | ⟨_, _ | ⟨_, _ | ⟨_, _ | ⟨_, _⟩⟩⟩⟩
      all_goals simp [moves] at hrest
      simp [hrest]
    have hanswer : ((run s start [.start (.claim 1), .serve 0]).calls[0]?.bind Call.said) =
        some (.taken 10 ⟨.alice, false⟩) := by decide +kernel
    obtain rfl : ClaimTransfer.taken 10 ⟨.alice, false⟩ = event := by
      simpa [hcall, hsaid] using hanswer.symm
    exact hwrong (by decide +kernel)
  have hsettled : (run s start moves).Settled :=
    ⟨List.isEmpty_iff.mp (by decide +kernel), by decide +kernel⟩
  refine ⟨unclaimed, hnever, hsettled, ?_⟩
  have hagrees := (claims_agree_once_delivered s .optional seed unclaimed default moves).2.1
    hnever hsettled 2
  have htopic : ((run s start moves).session.store.get? 2).map (·.topic) = some (some 10) := by
    decide +kernel
  obtain ⟨copy, hcopy, hinTopic⟩ := Option.map_eq_some_iff.mp htopic
  rw [hcopy, Option.map_some, hagrees copy 10 hcopy hinTopic]

/-- The session gives its claim up, somebody else claims the topic, and the session hears of both
before the answer arrives. -/
theorem claim_lost_to_overtaken_answer :
    let s : Session := ⟨.alice, default, [], [], false, false⟩
    let start := loaded (Queue.ofSeed .optional [.plain 1 (some 10)]) default
    let t := run s start [.start (.claim 1), .serve 0, .deliver 0, .hear, .start (.unclaim 1),
      .serve 0, .act .bob (.claim 10 false), .hear, .hear, .deliver 0]
    t.Settled ∧ t.queue.topicClaim 10 = some ⟨.bob, false⟩ ∧
      (t.session.store.get? 1).map (fun r ↦ (r.topic, r.claim)) = some (some 10, none) := by
  intro s start t
  refine ⟨⟨List.isEmpty_iff.mp ?_, ?_⟩, ?_, ?_⟩
  all_goals decide +kernel

end Traffic

end Moderation
