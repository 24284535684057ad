import Moderation.Proofs.Session.Alone

/-!
# A session that is alone is faithful

Whatever a moderator does with a session, its store mirrors the queue afterwards, provided that the
store was loaded from the queue and that nobody else changes the queue. Every step that asks for a
change is followed by the step that takes the answer over; on the way from an action to the release
of its claim, claims are only ever dropped.
-/

namespace Moderation

namespace Task

variable {c : Company} {marked : Option ReviewableId} {base : Queue} {topic : TopicId}
  {id : ReviewableId}

/-- After a request something holds again once the store took the answer over. If it was refused it
holds already. -/
def Due {α : Type} (P : Queue → Store → Prop) (takeOver : α → Store → Store) :
    Except BackendFault α → Queue → Store → Prop
  | .ok answer, q, s => P q (takeOver answer s)
  | .error fault, q, s => P q s ∧ ∃ refusal : Refusal, fault = refusal.fault q

/-- The claim that the queue gave is due at the store until it is written there. -/
theorem ensures_claim (topic : TopicId) (automatic : Bool) :
    (call (.claim topic automatic)).Ensures c (Store.Mirrors marked)
      (Due (Store.Mirrors marked) fun claim s ↦ (s.setTopicClaim topic (some claim)).store) :=
  ensures_call
    (fun _ _ _ hs hserve ↦ hs.claim (Queue.serve_effect hserve) (Queue.claim_answer hserve))
    fun _ _ refusal hs _ ↦ ⟨hs, refusal, rfl⟩

/-- The list is asked for without a change, and is what is pending. -/
theorem ensures_list {P : Queue → Store → Prop} :
    (call .list).Ensures c P fun reply q s ↦ P q s ∧ reply = .ok q.pending := by
  refine ensures_call (fun q s granted hs hserve ↦ ?_) fun _ _ _ _ hserve ↦ nomatch hserve
  obtain rfl : _ = granted := Except.ok.inj hserve
  exact ⟨hs, rfl⟩

/-- A release is sent with the kind that the claim has, as far as there is one. -/
theorem ensures_release (topic : TopicId) (automatic : Bool) :
    (call (.release topic automatic)).Ensures c
      (fun q s ↦ s.Within base marked q ∧
        (automatic = true → ∀ claim, q.topicClaim topic = some claim → claim.automatic = true))
      (Due (Store.Within base marked) fun _ s ↦ (s.setTopicClaim topic none).store) := by
  refine ensures_call (fun q s granted hs hserve ↦ ?_) fun _ _ refusal hs _ ↦ ⟨hs.1, refusal, rfl⟩
  have heffect := Queue.serve_effect hserve
  exact ⟨hs.1.1.release heffect (heffect.topicClaim_release hs.2),
    heffect.claimsWithin (by simp) hs.1.2⟩

/-- The reviewable that comes back from an edit is due at the store. -/
theorem ensures_update (id : ReviewableId) (version : UInt64) (updates : Fields) :
    (call (.update id version updates)).Ensures c (Store.Within base marked)
      (Due (Store.Within base marked) fun r s ↦ (s.refresh r).store) := by
  refine ensures_call (fun q s granted hs hserve ↦ ?_) fun _ _ refusal hs _ ↦ ⟨hs, refusal, rfl⟩
  have heffect := Queue.serve_effect hserve
  exact ⟨hs.1.update heffect (Queue.update_answer hserve), heffect.claimsWithin (by simp) hs.2⟩

/-- The result of an action is due at the store, and removes that reviewable and no other. -/
theorem ensures_perform (id : ReviewableId) (action : String) (version : UInt64) (data : Fields) :
    (call (.perform id action version data)).Ensures c (Store.Within base marked)
      (fun reply q s ↦
        Due (Store.Within base marked) (fun result s ↦ s.takeResult result) reply q s ∧
          ∀ result, reply = .ok result → result.removed = some [id]) := by
  refine ensures_call (fun q s granted hs hserve ↦ ?_)
    fun _ _ refusal hs _ ↦ ⟨⟨hs, refusal, rfl⟩, by simp⟩
  have heffect := Queue.serve_effect hserve
  obtain ⟨copy, removed, counted⟩ := Queue.perform_answer hserve
  refine ⟨⟨hs.1.perform heffect copy removed counted, heffect.claimsWithin (by simp) hs.2⟩, ?_⟩
  rintro result hresult
  obtain rfl := Except.ok.inj hresult
  exact removed

end Task

namespace Session

open Moderation.Task

variable {c : Company} {marked : Option ReviewableId} {base : Queue} {topic : TopicId}
  {id : ReviewableId} {r : Reviewable}

theorem keeps_claimFree (s : Session) (topic : TopicId) :
    (s.claimFree topic).Keeps c (Store.Mirrors marked) := by
  refine ensures_bind (ensures_claim topic true) fun reply ↦ ?_
  cases reply with
  | ok claim => exact ensures_bind (ensures_onStore fun q s h ↦ h) fun _ ↦ keeps_pure _
  | error fault => cases fault with
    | claimConflict message => exact (keeps_pure false).of_imp fun _ _ h ↦ h.1
    | versionConflict | rejected | transport | undecodable =>
      exact (keeps_bind (keeps_note _) fun _ ↦ keeps_pure false).of_imp fun _ _ h ↦ h.1

/-- A claim is asked for only where the store shows none, and then taken over from the answer. -/
theorem keeps_ensureClaimed (s : Session) (id : ReviewableId) :
    (s.ensureClaimed id).Keeps c (Store.Mirrors marked) := by
  apply keeps_bind (keeps_lookUp id)
  intro copy
  cases copy with
  | none => exact keeps_pure _
  | some r =>
    dsimp only
    cases r.topic with
    | none => exact keeps_pure _
    | some topic =>
      dsimp only
      split
      · exact keeps_pure _
      · split
        · exact keeps_pure _
        · exact s.keeps_claimFree topic

/-- An explicit claim is taken over from the answer, too. -/
theorem keeps_claim (s : Session) (id : ReviewableId) :
    (s.claim id).Keeps c (Store.Mirrors marked) := by
  apply keeps_withCopy
  intro r
  cases r.topic with
  | none => exact keeps_pure _
  | some topic =>
    refine ensures_bind (ensures_claim topic false) fun reply ↦ ?_
    cases reply with
    | ok claim => exact ensures_bind (ensures_onStore fun q s h ↦ h) fun _ ↦ keeps_pure _
    | error fault => exact (keeps_pure _).of_imp fun _ _ h ↦ h.1

/-- The automatic claim that a copy showed is given back, if nothing but drops came in between. -/
theorem keeps_release (s : Session)
    (shown : ∀ topic, r.topic = some topic → r.claim = base.topicClaim topic) :
    (s.release r).Keeps c (Store.Within base marked) := by
  unfold release
  cases htopic : r.topic with
  | none => exact keeps_pure _
  | some topic => cases hclaim : r.claim with
    | none => exact keeps_pure _
    | some claim =>
      dsimp only
      split
      · rename_i hown
        have hbase : base.topicClaim topic = some claim := by rw [← shown topic htopic, hclaim]
        have kind : ∀ q : Queue, q.ClaimsWithin base → true = true →
            ∀ held, q.topicClaim topic = some held → held.automatic = true := by
          intro q within _ held hheld
          obtain rfl : claim = held := Option.some.inj (hbase.symm.trans (within topic held hheld))
          exact (Bool.and_eq_true_iff.mp hown).1
        refine ensures_bind ((ensures_release topic true).mono
          (fun q s h ↦ ⟨h, kind q h.2⟩) fun _ _ _ h ↦ h) fun reply ↦ ?_
        cases reply with
        | ok answer => exact ensures_bind (ensures_onStore fun q s h ↦ h) fun _ ↦ keeps_pure _
        | error fault => exact (keeps_pure _).of_imp fun _ _ h ↦ h.1
      · exact keeps_pure _

/-- A claim that the queue released the store shows no more, even while a guard is held. -/
theorem keeps_unclaim (s : Session) (id : ReviewableId) :
    (s.unclaim id).Keeps c (Store.Within base marked) := by
  refine ensures_withCopy (fun _ _ h ↦ h) fun r ↦ ?_
  cases htopic : r.topic with
  | none => exact (keeps_pure _).of_imp fun _ _ h ↦ h.1
  | some topic =>
    have kind : ∀ q : Queue, ∀ s : Store, s.Mirrors marked q → s.get? id = some r →
        (r.claim.any (·.automatic)) = true →
        ∀ held, q.topicClaim topic = some held → held.automatic = true := by
      intro q s hs hcopy hautomatic held hheld
      rw [hs.claims id r topic (hs.found hcopy) htopic, hheld] at hautomatic
      exact hautomatic
    refine ensures_bind ((ensures_release topic _).mono
      (fun q s h ↦ ⟨h.1, kind q s h.1.1 h.2⟩) fun _ _ _ h ↦ h) fun reply ↦ ?_
    cases reply with
    | ok answer => exact ensures_bind (ensures_onStore fun q s h ↦ h) fun _ ↦ keeps_pure _
    | error fault => exact (keeps_pure _).of_imp fun _ _ h ↦ h.1

/-! ## Actions -/

/-- A refusal comes with the reviewable as the queue has it, so taking it over does no harm. -/
theorem ensures_reportFailure (fault : BackendFault) :
    (reportFailure fault).Ensures c
      (fun q s ↦ s.Within base marked q ∧ ∃ refusal : Refusal, fault = refusal.fault q)
      fun _ ↦ Store.Within base marked := by
  cases fault with
  | versionConflict message current => cases current with
    | some current =>
      refine ensures_bind (ensures_onStore ?_) fun _ ↦ keeps_note _
      rintro q s ⟨hs, refusal, hfault⟩
      cases refusal with
      | versionConflict id expected found =>
        have hcopy : some current = q.items[id]? := (BackendFault.versionConflict.inj hfault).2
        exact ⟨hs.1.refresh hcopy.symm, hs.2⟩
      | _ => cases hfault
    | none => exact (keeps_note _).of_imp fun _ _ h ↦ h.1
  | claimConflict | rejected | transport | undecodable =>
    exact (keeps_note _).of_imp fun _ _ h ↦ h.1

/-- Taking the result of an action over asks nobody, if the result says what to remove. -/
theorem alone_applyResult (id : ReviewableId) (action : Action) {result : PerformResult}
    {ids : List ReviewableId} (removed : result.removed = some ids) (w : World) :
    ((applyResult id action result).alone c w).2.queue = w.queue ∧
      ((applyResult id action result).alone c w).2.session.store =
        w.session.store.takeResult result := by
  obtain ⟨success, status, version, reviewable, removed', count, unseen⟩ := result
  obtain rfl : removed' = some ids := removed
  unfold applyResult
  cases action.completion with
  | none => cases reviewable <;> exact ⟨rfl, rfl⟩
  | some message => cases reviewable <;> exact ⟨rfl, rfl⟩

/-- With what comes back for an action nothing is left to be fetched. -/
theorem ensures_applyResult (action : Action) {result : PerformResult} {ids : List ReviewableId}
    (removed : result.removed = some ids) :
    (applyResult id action result).Ensures c
      (fun q s ↦ (s.takeResult result).Within base marked q)
      fun _ ↦ Store.Within base marked := by
  intro w hw
  obtain ⟨hqueue, hstore⟩ := alone_applyResult (c := c) id action removed w
  rw [hqueue, hstore]
  exact hw

/-- A send leaves the store as the queue is, granted or refused. -/
theorem keeps_send (s : Session) (id : ReviewableId) (action : Action) (extra : Fields) :
    (s.send id action extra).Keeps c (Store.Within base marked) := by
  apply keeps_withCopy
  intro r
  refine ensures_bind (ensures_perform id action.name r.version _) fun reply ↦ ?_
  cases reply with
  | ok result =>
    intro w hw
    exact ensures_bind (ensures_applyResult action (hw.2 result rfl)) (fun _ ↦ keeps_pure _) w hw.1
  | error fault =>
    exact ensures_bind ((ensures_reportFailure fault).mono (fun _ _ h ↦ h.1) fun _ _ _ h ↦ h)
      fun _ ↦ keeps_pure _

section Pending

variable {P : Queue → Store → Prop}

theorem keeps_create (id : ReviewableId) (action : Action) (extra : Fields) :
    (Pending.create id action extra).Keeps c P := keeps_sync (fun _ ↦ rfl) fun _ ↦ keeps_pure _

theorem keeps_take (p : Pending) : p.take.Keeps c P := keeps_sync (fun _ ↦ rfl) fun _ ↦ keeps_pure _

theorem keeps_giveBack (p : Pending) : p.giveBack.Keeps c P := keeps_modify fun _ ↦ rfl

theorem keeps_complete (p : Pending) (completion : Completion) :
    (p.complete completion).Keeps c P := keeps_modify fun _ ↦ rfl

theorem keeps_completion (p : Pending) : p.completion.Keeps c P :=
  keeps_sync (fun _ ↦ rfl) fun _ ↦ keeps_pure _

end Pending

/-- Who finds the dispatch free sends; all others leave everything as it is. -/
theorem keeps_dispatch (s : Session) (p : Pending) (more : Fields) :
    (s.dispatch p more).Keeps c (Store.Within base marked) := by
  apply keeps_bind (keeps_take p)
  intro taken
  cases taken with
  | true => exact keeps_pure _
  | false =>
    apply keeps_bind (s.keeps_send p.id p.action _)
    intro result
    cases result with
    | ok completion => exact keeps_bind (keeps_complete p completion) fun _ ↦ keeps_pure _
    | error fault => exact keeps_bind (keeps_giveBack p) fun _ ↦ keeps_pure _

/-- A plan sends as often as it likes. -/
theorem keeps_carryOut {α : Type} (s : Session) (p : Pending) (plan : Plan α) :
    (s.carryOut p plan).Keeps c (Store.Within base marked) := by
  induction plan with
  | finish result => exact keeps_pure result
  | send more next ih =>
    exact keeps_bind (s.keeps_dispatch p more) fun result ↦
      keeps_bind (keeps_note _) fun _ ↦ ih result

theorem keeps_penalize (s : Session) (kind : PenaltyKind) (r : Reviewable) (p : Pending) :
    (s.penalize kind r p).Keeps c (Store.Within base marked) := by
  unfold penalize
  cases r.author with
  | none => exact keeps_pure false
  | some user => exact keeps_bind (keeps_query (by simp)) fun plan ↦ s.keeps_carryOut p plan

/-- Without a penalty the claim that the reviewable shows is released, so it has to be the topic's. -/
theorem keeps_runPenalty (s : Session) (kind : PenaltyKind) (p : Pending)
    (shown : ∀ topic, r.topic = some topic → r.claim = base.topicClaim topic) :
    (s.runPenalty kind r p).Keeps c (Store.Within base marked) := by
  unfold runPenalty
  split
  · apply keeps_bind (s.keeps_penalize kind r p)
    intro penalized
    cases penalized with
    | true => exact keeps_pure ()
    | false =>
      apply keeps_bind (s.keeps_release shown)
      intro released
      cases released with
      | ok sent => exact keeps_pure ()
      | error fault => exact keeps_note _
  · exact keeps_pure ()

theorem keeps_runEdit (s : Session) (r : Reviewable) (p : Pending) :
    (s.runEdit r p).Keeps c (Store.Within base marked) := by
  apply keeps_bind (keeps_query (by simp))
  intro editable
  cases editable with
  | true => exact keeps_bind (s.keeps_dispatch p ∅) fun _ ↦ keeps_pure _
  | false => exact keeps_pure _

theorem keeps_runWorkflow (s : Session) (workflow : Workflow) (p : Pending)
    (shown : ∀ topic, r.topic = some topic → r.claim = base.topicClaim topic) :
    (s.runWorkflow workflow r p).Keeps c (Store.Within base marked) := by
  cases workflow with
  | penalty kind => exact keeps_bind (s.keeps_runPenalty kind p shown) fun _ ↦ keeps_pure _
  | edit => exact s.keeps_runEdit r p
  | custom name => exact keeps_bind (keeps_query (by simp)) fun plan ↦ s.keeps_carryOut p plan

/-- A workflow starts with the store's copy, which shows the claim that the topic has then. -/
theorem keeps_performByWorkflow (s : Session) (workflow : Workflow) (id : ReviewableId)
    (action : Action) (extra : Fields) :
    (s.performByWorkflow workflow id action extra).Keeps c (Store.Mirrors marked) := by
  refine ensures_withCopy (fun _ _ h ↦ h) fun r w hw ↦ ?_
  have shown : ∀ topic, r.topic = some topic → r.claim = w.queue.topicClaim topic :=
    fun topic htopic ↦ hw.1.claims id r topic (hw.1.found hw.2) htopic
  suffices hkeeps : Task.Keeps c (Store.Within w.queue marked) _ from
    (hkeeps w ⟨hw.1, .refl w.queue⟩).1
  apply keeps_bind (keeps_create id action extra)
  intro p
  apply keeps_bind (s.keeps_runWorkflow workflow p shown)
  intro result
  cases result with
  | error fault => exact keeps_pure _
  | ok done =>
    apply keeps_bind (keeps_completion p)
    intro completion
    cases completion <;> exact keeps_pure _

/-! ## Operations -/

/-- What is kept whatever claims there were is kept. -/
theorem keeps_of_within {α : Type} {task : Task α}
    (h : ∀ base, task.Keeps c (Store.Within base marked)) : task.Keeps c (Store.Mirrors marked) :=
  fun w hw ↦ (h w.queue w ⟨hw, .refl w.queue⟩).1

/-- With or without a workflow, an action that was confirmed is sent. -/
theorem keeps_performConfirmed (s : Session) (workflows : String → Option Workflow)
    (id : ReviewableId) (action : Action) (extra : Fields) :
    (s.performConfirmed workflows id action extra).Keeps c (Store.Mirrors marked) := by
  apply keeps_bind (s.keeps_ensureClaimed id)
  intro claimed
  cases claimed with
  | false => exact keeps_pure _
  | true => cases workflowOf workflows action with
    | error fault => exact keeps_pure _
    | ok workflow => cases workflow with
      | none =>
        exact keeps_bind (keeps_of_within fun _ ↦ s.keeps_send id action extra)
          fun _ ↦ keeps_pure _
      | some workflow => exact s.keeps_performByWorkflow workflow id action extra

theorem keeps_performAsking (s : Session) (message : String)
    (workflows : String → Option Workflow) (id : ReviewableId) (action : Action) (extra : Fields) :
    (s.performAsking message workflows id action extra).Keeps c (Store.Mirrors marked) := by
  apply keeps_bind (s.keeps_ensureClaimed id)
  intro claimed
  cases claimed with
  | false => exact keeps_pure _
  | true =>
    apply keeps_bind (keeps_query (by simp))
    intro confirmed
    cases confirmed with
    | true => exact s.keeps_performConfirmed workflows id action extra
    | false => exact keeps_pure _

theorem keeps_performFilling (s : Session) (form : String) (workflows : String → Option Workflow)
    (id : ReviewableId) (action : Action) (extra : Fields) :
    (s.performFilling form workflows id action extra).Keeps c (Store.Mirrors marked) := by
  unfold performFilling
  split
  · apply keeps_bind (s.keeps_ensureClaimed id)
    intro claimed
    cases claimed with
    | false => exact keeps_pure _
    | true =>
      refine keeps_withCopy fun r ↦ keeps_bind (keeps_query (by simp)) fun filled ↦ ?_
      cases filled with
      | some entered => exact s.keeps_performConfirmed workflows id action _
      | none => exact keeps_pure _
  · exact keeps_pure _

/-- The guard of an action is gone when it ends, so the mirror is whole again. -/
theorem keeps_perform (s : Session) (id : ReviewableId) (action : Action) (extra : Fields) :
    (s.perform id action extra).Keeps c (Store.Mirrors none) := by
  refine keeps_withUpdate ?_
  unfold performMarked
  cases workflowOf s.workflow? action with
  | error fault => exact keeps_pure _
  | ok _ => cases action.confirmation with
    | some message => exact s.keeps_performAsking message s.workflow? id action extra
    | none => cases s.formOf? action with
      | some form => exact s.keeps_performFilling form s.workflow? id action extra
      | none => exact s.keeps_performConfirmed s.workflow? id action extra

theorem keeps_performNamed (s : Session) (id : ReviewableId) (name : String) (extra : Fields) :
    (s.performNamed id name extra).Keeps c (Store.Mirrors none) := by
  apply keeps_withCopy
  intro r
  cases r.action? name with
  | some action => exact s.keeps_perform id action extra
  | none => exact keeps_pure _

theorem keeps_saveEdit (s : Session) (id : ReviewableId) (updates : Fields) :
    (s.saveEdit id updates).Keeps c (Store.Mirrors none) := by
  refine keeps_withUpdate (keeps_of_within fun base ↦ keeps_withCopy fun r ↦ ?_)
  refine ensures_bind (ensures_update id r.version _) fun reply ↦ ?_
  cases reply with
  | ok edited => exact ensures_bind (ensures_onStore fun q s h ↦ h) fun _ ↦ keeps_pure _
  | error fault => exact ensures_bind (ensures_reportFailure fault) fun _ ↦ keeps_pure _

/-- Loading makes a mirror out of any store that has no marker and no other count. -/
theorem ensures_loadQueue (s : Session) :
    s.loadQueue.Ensures c
      (fun q st ↦ q.Keyed ∧ q.ClaimsAgree ∧ (∀ id, st.isUpdating id = false) ∧
        ∀ count, st.counts.reviewables = some count → count = q.pendingCount)
      fun _ ↦ Store.Mirrors none := by
  refine ensures_bind ensures_list fun reply ↦ ?_
  cases reply with
  | ok items =>
    refine ensures_bind (ensures_onStore ?_) fun _ ↦ keeps_pure _
    rintro q st ⟨⟨keyed, claims, unmarked, count⟩, hitems⟩
    obtain rfl := Except.ok.inj hitems
    exact Store.mirrors_replaceAll keyed claims unmarked count
  | error fault => exact ensures_pure fun _ _ h ↦ nomatch h.2

inductive Operation where
  | load
  | perform (id : ReviewableId) (action : Action) (extra : Fields)
  | performNamed (id : ReviewableId) (name : String) (extra : Fields)
  | claim (id : ReviewableId)
  | unclaim (id : ReviewableId)
  | saveEdit (id : ReviewableId) (updates : Fields)

/-- The world after an operation of a session. -/
def after (s : Session) (c : Company) (w : World) : Operation → World
  | .load => (s.loadQueue.alone c w).2
  | .perform id action extra => ((s.perform id action extra).alone c w).2
  | .performNamed id name extra => ((s.performNamed id name extra).alone c w).2
  | .claim id => ((s.claim id).alone c w).2
  | .unclaim id => ((s.unclaim id).alone c w).2
  | .saveEdit id updates => ((s.saveEdit id updates).alone c w).2

def run (s : Session) (c : Company) (w : World) (ops : List Operation) : World :=
  ops.foldl (s.after c) w

/-- One operation. -/
theorem mirrors_after (s : Session) {w : World} (h : w.session.store.Mirrors none w.queue)
    (op : Operation) : (s.after c w op).session.store.Mirrors none (s.after c w op).queue := by
  cases op with
  | load => exact s.ensures_loadQueue w ⟨h.keyed, h.claims, h.isUpdating_eq_false, h.count⟩
  | perform id action extra => exact s.keeps_perform id action extra w h
  | performNamed id name extra => exact s.keeps_performNamed id name extra w h
  | claim id => exact s.keeps_claim id w h
  | unclaim id => exact keeps_of_within (fun _ ↦ s.keeps_unclaim id) w h
  | saveEdit id updates => exact s.keeps_saveEdit id updates w h

/-- Any number of operations, one after another. -/
theorem mirrors_run (s : Session) {w : World} (h : w.session.store.Mirrors none w.queue)
    (ops : List Operation) : (s.run c w ops).session.store.Mirrors none (s.run c w ops).queue := by
  induction ops generalizing w with
  | nil => exact h
  | cons op rest ih => exact ih (s.mirrors_after h op)

/-- A session that loads the queue first starts with a mirror. -/
theorem mirrors_load (s : Session) {q : Queue} (keyed : q.Keyed) (claims : q.ClaimsAgree) :
    (s.after c ⟨q, default, 0⟩ .load).session.store.Mirrors none
      (s.after c ⟨q, default, 0⟩ .load).queue := by
  refine s.ensures_loadQueue ⟨q, default, 0⟩
    ⟨keyed, claims, Store.isUpdating_empty, fun count hcount ↦ ?_⟩
  cases hcount

/-- A session that loaded the queue shows it for as long as it is alone. -/
theorem alone_shows_pending (s : Session) (answers : Nat → (query : Query) → query.Answer)
    (q : Queue) (reachable : q.Reachable) (agree : q.ClaimsAgree) (ops : List Operation) :
    let w := s.run ⟨s.actor, answers⟩ ⟨q, default, 0⟩ (.load :: ops)
    w.session.store.snapshot = w.queue.pending ∧
      (∀ id, w.session.store.isUpdating id = false) ∧
      (w.session.store.counts.reviewables = none ∨
        w.session.store.counts.reviewables = some w.queue.pendingCount) := by
  intro w
  have h : w.session.store.Mirrors none w.queue :=
    s.mirrors_run (s.mirrors_load reachable.keyed agree) ops
  refine ⟨h.snapshot_eq, h.isUpdating_eq_false, ?_⟩
  cases hcount : w.session.store.counts.reviewables with
  | none => exact .inl rfl
  | some count => exact .inr (congrArg some (h.count count hcount))

/-- A penalty that does not come about gives its automatic claim back; an action claims the topic
again and is the last that the topic waited for; an edit goes in without a claim. -/
theorem alone_shows_pending_after_penalty :
    let s : Session := ⟨.alice, default, [], [], true, false⟩
    let answers : Nat → (query : Query) → query.Answer
      | _, .call _ => .error (.transport "")
      | _, .confirm _ => true
      | _, .collect .. => none
      | _, .edit _ => true
      | _, .penalize .. => .finish false
      | _, .run .. => .finish (.ok ())
    let r := { Reviewable.plain 1 (some 10) with author := some .bob }
    let q := (Queue.empty .required).run [.insert r, .insert (.plain 2 none)]
    let suspend : Action := { (default : Action) with name := "ignore", workflow := some "suspend" }
    let ignore : Action := { (default : Action) with name := "ignore" }
    let ops := [.perform 1 suspend ∅, .perform 1 ignore ∅, .saveEdit 2 ∅]
    let w := s.run ⟨s.actor, answers⟩ ⟨q, default, 0⟩ (.load :: ops)
    q.Reachable ∧ q.ClaimsAgree ∧
      w.session.store.snapshot.map (fun r ↦ (r.id, r.version)) = [(2, 1)] ∧
      w.session.store.isUpdating 2 = false := by
  intro s answers r q suspend ignore ops w
  have reachable : q.Reachable := ⟨.required, _, rfl⟩
  have agree : q.ClaimsAgree := by
    have hfirst : ((Queue.empty .required).insert r).ClaimsAgree :=
      (Queue.claimsAgree_empty .required).insert rfl
    exact hfirst.insert (r := .plain 2 none) rfl
  obtain ⟨hsnapshot, hmarkers, -⟩ := s.alone_shows_pending answers q reachable agree ops
  have hpending : w.queue.pending.map (fun r ↦ (r.id, r.version)) = [(2, 1)] := by
    decide +kernel
  refine ⟨reachable, agree, ?_, hmarkers 2⟩
  rw [hsnapshot]
  exact hpending

end Session

end Moderation
