import Moderation.Proofs.Session.Sending

/-!
# Performing is safe, and its outcome is right

Before the action is sent, a call claims the topic and asks the moderator, all alone. Then it sends
the action itself, or it creates the dispatch and hands it out. What it makes of that goes by the
dispatch at the end.
-/

namespace Moderation

/-- The question has nothing to do with sending. -/
def Query.Plain (query : Query) : Prop := query.sends = false ∧ query.handsOut = false

theorem Query.Plain.performs {query : Query} (plain : query.Plain) : query.performs = false :=
  performs_of_not_sends plain.1

namespace View

variable {role : Role} {query : Query} {v v' : View} {n : Nat}

/-- Nothing that was sent succeeded, and nothing is under way. -/
def Unsuccessful (v : View) : Prop :=
  v.stage.isTaken = false ∧ ∀ completion, .ok completion ∉ v.results

/-- The outcome of a call says what became of the action. -/
def Verdict (v : View) : Except SessionFault Outcome → Prop
  | .ok (.completed completion) => v.stage = .landed completion.result ∧ Plan.Done v.plan v.told ∧
    (v.shared = true → .ok completion ∈ v.results) ∧
    ∀ other, .ok other ∈ v.results → other = completion
  | .ok (.aborted reason) => (v.stage.isTaken = true → v.busy = true) ∧ Plan.Done v.plan v.told ∧
    (∀ completion, .ok completion ∉ v.results) ∧
    (reason ≠ .workflowIncomplete → v.stage = .unsent)
  | .error fault => v.Unsuccessful ∨ v.shared = true ∧ Plan.Failed v.plan v.told fault

/-- Nothing was sent or handed out yet, and no plan came back. -/
structure Idle (v : View) : Prop where
  settled : v.Settled false []
  unsent : v.stage = .unsent
  secret : v.shared = false
  plan : v.plan = none
  told : v.told = []

/-- Where a workflow leaves off. -/
structure Returned (n : Nat) (result : Except SessionFault Unit) (v : View) : Prop where
  settled : v.Settled false []
  slot : v.slot = some n
  ok : result = .ok () → Plan.Done v.plan v.told
  error : ∀ fault, result = .error fault →
    v.Unsuccessful ∨ v.shared = true ∧ Plan.Failed v.plan v.told fault

/-- As long as nothing is under way, nothing was completed. -/
theorem Settled.none_of_free (settled : v.Settled false []) (free : v.stage.isTaken = false) :
    v.completion = none ∧ v.busy = false ∧ ∀ completion, .ok completion ∉ v.results := by
  have hnone : v.completion = none ∧ v.busy = false := by
    cases hslot : v.slot with
    | none =>
      obtain ⟨hdispatch, -, hbusy⟩ := settled.direct hslot
      exact ⟨by simp [completion, hdispatch], hbusy⟩
    | some n =>
      rcases settled.taken_or_free hslot with ⟨htaken, -⟩ | ⟨-, hdispatch, hbusy⟩
      · simp [htaken] at free
      · exact ⟨by simp [completion, hdispatch], hbusy⟩
  refine ⟨hnone.1, hnone.2, fun completion hok ↦ ?_⟩
  have hcompletion := settled.completed completion (List.mem_append_left _ hok)
  simp [hnone.1] at hcompletion

/-- Where nothing was sent the right to send is free. -/
theorem Idle.free (idle : v.Idle) : v.stage.isTaken = false := by
  rw [idle.unsent]
  rfl

theorem Idle.done (idle : v.Idle) : Plan.Done v.plan v.told := by simp [Plan.Done, idle.plan]

/-- An action that was aborted before it was sent has a verdict. -/
theorem Idle.verdict_aborted (idle : v.Idle) (reason : Abort) :
    v.Verdict (.ok (.aborted reason)) :=
  ⟨by simp [idle.free], idle.done, (idle.settled.none_of_free idle.free).2.2,
    fun _ ↦ idle.unsent⟩

/-- So does one that failed before it was sent. -/
theorem Idle.verdict_error (idle : v.Idle) (fault : SessionFault) : v.Verdict (.error fault) :=
  .inl ⟨idle.free, (idle.settled.none_of_free idle.free).2.2⟩

/-- Who has not handed anything out has the right to send. -/
theorem Idle.holds (idle : v.Idle) (slot : v.slot = none) : v.Holds where
  alone := (idle.settled.none_of_free idle.free).2.1
  dispatch := by rw [slot, (idle.settled.direct slot).1, Option.map_none]
  direct _ := idle.secret
  none_ok := (idle.settled.none_of_free idle.free).2.2

/-- What nobody else learns of need not be given out. -/
theorem Settled.secret {unsaid : List (Except SessionFault Completion)}
    (settled : v.Settled false unsaid) (secret : v.shared = false) : v.Settled false [] where
  standing := settled.standing
  direct := settled.direct
  completed completion hok :=
    settled.completed completion (List.mem_append_left _ (by simpa using hok))
  said hshared := by simp [secret] at hshared

/-- Handing the right out changes nothing yet. -/
theorem Idle.share (idle : v.Idle) (hslot : v.slot = some n) :
    { v with shared := true }.Settled false [] where
  standing := idle.settled.standing
  direct hnone := by simp [hslot] at hnone
  completed := idle.settled.completed
  said _ completion hcompletion := by
    have hnone := (idle.settled.none_of_free idle.free).1
    exact absurd (hnone.symm.trans hcompletion) (by simp)

/-- While a plain question is answered nothing is sent by anybody else. -/
theorem Idle.resumes (idle : v.Idle) (plain : query.Plain) (resumes : v.Resumes .call query v') :
    v'.Idle where
  settled := by simpa [plain.1] using resumes.settled
  unsent := (resumes.stage (.inr ⟨rfl, idle.secret⟩)).trans idle.unsent
  secret := (resumes.shared rfl).trans idle.secret
  plan := (resumes.plan rfl).trans idle.plan
  told := (resumes.told rfl).trans idle.told

/-- A dispatch is free when it is created. -/
theorem Idle.create (idle : v.Idle) (n : Nat) :
    { v with slot := some n, dispatch := some default }.Idle where
  settled := by
    obtain ⟨-, halone, hnone⟩ := idle.settled.none_of_free idle.free
    refine ⟨fun _ _ ↦ ⟨default, rfl, ?_⟩, by simp, fun completion hok ↦ ?_, by simp [idle.secret]⟩
    · rw [Bool.false_or, halone]
      exact .free idle.free
    · exact absurd (by simpa using hok) (hnone completion)
  unsent := idle.unsent
  secret := idle.secret
  plan := idle.plan
  told := idle.told

theorem Settled.permits_plain (settled : v.Settled false []) (plain : query.Plain) :
    v.Permits .call query where
  settled := by
    rw [after_asked plain.performs plain.2, plain.1]
    exact settled
  alone := by simp [plain.1]
  first := by simp [plain.performs]
  sends := nofun

/-- A call that sends the action itself says what became of that. -/
theorem Idle.verdict_of_sends (idle : v.Idle) {result : Except SessionFault Completion}
    (sends : v.Sends .call result v') : v'.Verdict (result.map .completed) := by
  have hshared : v'.shared = false := (sends.shared rfl).trans idle.secret
  cases result with
  | ok completion =>
    refine ⟨sends.ok completion rfl, ?_, by simp [hshared], fun other hok ↦ ?_⟩
    · simp [Plan.Done, (sends.plan rfl).trans idle.plan]
    · exact absurd hok (sends.holds.none_ok other)
  | error fault => exact .inl ⟨sends.error fault rfl, sends.holds.none_ok⟩

/-- What a call makes of the dispatch when its workflow returned normally. -/
def outcomeOf : Option Completion → Outcome
  | some completion => .completed completion
  | none => .aborted .workflowIncomplete

/-- The dispatch says what became of the action that a workflow was to send. -/
theorem Returned.verdict (returned : v.Returned n (.ok ())) :
    v.Verdict (.ok (outcomeOf v.completion)) := by
  obtain ⟨dispatch, hdispatch, hstanding⟩ := returned.settled.standing n returned.slot
  have hcompletion : v.completion = dispatch.completion := by simp [View.completion, hdispatch]
  have hcompleted : ∀ completion, .ok completion ∈ v.results →
      v.completion = some completion := fun completion hok ↦
    returned.settled.completed completion (List.mem_append_left _ hok)
  have hsaid := returned.settled.said
  rw [hcompletion] at hcompleted hsaid ⊢
  rw [Bool.false_or] at hstanding
  generalize hstage : v.stage = stage at hstanding
  generalize hbusy : v.busy = busy at hstanding
  cases hstanding with
  | free hfree =>
    refine ⟨?_, returned.ok rfl, by simpa using hcompleted, fun h ↦ absurd rfl h⟩
    simp [hstage, hfree]
  | taken htaken =>
    exact ⟨fun _ ↦ hbusy, returned.ok rfl, by simpa using hcompleted, fun h ↦ absurd rfl h⟩
  | sent completion =>
    refine ⟨hstage, returned.ok rfl, fun hshared ↦ ?_, fun other hok ↦ ?_⟩
    · simpa using hsaid hshared completion rfl
    · exact (Option.some.inj (hcompleted other hok)).symm

end View

namespace Task

variable {α : Type} {V : α → Prop} {scene : Scene} {busy : Bool}

/-- A calm task of the call that has nothing to do with sending. -/
theorem Calm.safe_plain {task : Task α} {P : View → Prop} (calm : task.Calm Query.Plain V)
    (settled : ∀ v, P v → v.Settled false [])
    (lasts : ∀ query v v', query.Plain → P v → v.Resumes .call query v' → P v')
    (h : P (scene.view busy)) : task.Safe .call (fun a v ↦ V a ∧ P v) scene busy :=
  calm.safe (fun _ hplain ↦ ⟨hplain.performs, hplain.2⟩)
    (fun _ v hplain hP ↦ (settled v hP).permits_plain hplain) lasts h

/-- What is calm keeps the call idle. -/
theorem Calm.safe_idle {task : Task α} (calm : task.Calm Query.Plain V) {slot : Option Nat}
    (h : (scene.view busy).Idle ∧ (scene.view busy).slot = slot) :
    task.Safe .call (fun a v ↦ V a ∧ v.Idle ∧ v.slot = slot) scene busy :=
  calm.safe_plain (fun _ hv ↦ hv.1.settled)
    (fun _ _ _ hplain hv hresumes ↦ ⟨hv.1.resumes hplain hresumes, hresumes.slot.trans hv.2⟩) h

end Task

namespace Session

open Moderation.Task

variable {scene : Scene} {busy : Bool} {id : ReviewableId}

theorem calm_claimFree (s : Session) (topic : TopicId) :
    (s.claimFree topic).Calm Query.Plain fun _ ↦ True := by
  refine Calm.bind (calm_call ⟨rfl, rfl⟩) fun reply _ ↦ ?_
  cases reply with
  | ok claim => exact (calm_onStore _).bind fun _ _ ↦ calm_pure trivial
  | error fault => cases fault with
    | claimConflict message => exact calm_pure trivial
    | versionConflict | rejected | transport | undecodable =>
      exact Calm.bind (V := fun _ ↦ True) (calm_note rfl) fun _ _ ↦ calm_pure trivial

/-- Getting the claim is calm. -/
theorem calm_ensureClaimed (s : Session) (id : ReviewableId) :
    (s.ensureClaimed id).Calm Query.Plain fun _ ↦ True := by
  refine (calm_lookUp id).bind fun copy _ ↦ ?_
  cases copy with
  | none => exact calm_pure trivial
  | some r =>
    dsimp only
    cases r.topic with
    | none => exact calm_pure trivial
    | some topic =>
      dsimp only
      split
      · exact calm_pure trivial
      · split
        · exact calm_pure trivial
        · exact s.calm_claimFree topic

/-- So is giving an automatic claim back. -/
theorem calm_release (s : Session) (r : Reviewable) :
    (s.release r).Calm Query.Plain fun _ ↦ True := by
  unfold release
  split
  · split
    · refine Calm.bind (calm_call ⟨rfl, rfl⟩) fun reply _ ↦ ?_
      cases reply with
      | ok done => exact (calm_onStore _).bind fun _ _ ↦ calm_pure trivial
      | error fault => exact calm_pure trivial
    · exact calm_pure trivial
  · exact calm_pure trivial

/-! ## Workflows -/

/-- The call tells its plan what became of a send. -/
theorem safe_tell {result : Except SessionFault Completion} {v : View} (hv : scene.view busy = v)
    (leaves : ∀ performed, v.stage = .landed performed → performed.Leaves result) :
    (note (.sent result)).Safe .call (fun _ w ↦ w = v.after (.told result)) scene busy := by
  subst hv
  have htells : scene.tells (fun s ↦ { s with journal := s.journal ++ [.sent result] }) =
      [.told result] := by
    simp [Scene.tells, Note.told?]
  refine ⟨⟨fun _ ↦ ?_, by simp, ?_⟩, ?_⟩
  · simp [Scene.change]
  · rw [htells]
    rintro h hmem performed hlanded
    obtain rfl := List.mem_singleton.mp hmem
    refine ⟨rfl, ?_⟩
    rintro _ ⟨⟩
    exact leaves performed hlanded
  · change _ = _
    rw [← Scene.view_happens]
    simp [Scene.change, htells, Scene.happens, Scene.view]

/-- The call asks somebody whom it hands the right to send to. -/
theorem safe_handOut (query : Query) {n : Nat} (idle : (scene.view busy).Idle)
    (hslot : (scene.view busy).slot = some n) (handsOut : query.handsOut = true)
    (sends : query.sends = false) :
    (Task.query query).Safe .call (fun answer v ↦ v.Settled false [] ∧ v.slot = some n ∧
      v.shared = true ∧ v.plan = (Happening.answered query answer).plan? ∧ v.told = [])
      scene busy := by
  have hperforms : query.performs = false := Query.performs_of_not_sends sends
  have hasked : (scene.view busy).after (.asked query) =
      { scene.view busy with shared := true } := by
    simp [View.after, Stage.after_of_silent (h := .asked query) hperforms, Happening.handsOut,
      handsOut, Happening.plan?, Log.told, Log.results, Happening.told?, Happening.result?]
  refine ⟨⟨?_, by simp [sends], by simp [hperforms], by simp⟩, fun answer scene' busy' hresumes ↦ ?_⟩
  · rw [hasked, sends]
    exact idle.share hslot
  · rw [hasked] at hresumes
    have hsettled : (scene'.view busy').Settled false [] := by simpa [sends] using hresumes.settled
    have hplan : (scene'.view busy').plan = none := (hresumes.plan rfl).trans idle.plan
    have htold : (scene'.view busy').told = [] := (hresumes.told rfl).trans idle.told
    change View.Settled _ _ _ ∧ _
    rw [Scene.view_happens]
    have hanswered : (scene'.view busy').after (.answered query answer) =
        { scene'.view busy' with plan := (Happening.answered query answer).plan? } := by
      simp [View.after, Stage.after_of_silent (h := .answered query answer) hperforms,
        Happening.handsOut, hplan, Log.told, Log.results, Happening.told?, Happening.result?]
    rw [hanswered]
    exact ⟨⟨hsettled.standing, hsettled.direct, hsettled.completed, hsettled.said⟩,
      hresumes.slot.trans hslot, hresumes.shared rfl, rfl, htold⟩

/-- A plan is carried out up to a result, and it is told what became of everything that it sends. -/
theorem safe_carryOut {α : Type} (s : Session) (p : Pending) (plan : Plan α) {v : View}
    (hv : scene.view busy = v) (settled : v.Settled false []) (hslot : v.slot = some p.number) :
    (s.carryOut p plan).Safe .call (fun a w ↦ w.Settled false [] ∧ w.slot = v.slot ∧
      w.shared = v.shared ∧ w.plan = v.plan ∧
      ∃ more, w.told = v.told ++ more ∧ plan.outcome more = some a) scene busy := by
  induction plan generalizing scene busy v with
  | finish result =>
    subst hv
    exact ⟨settled, rfl, rfl, rfl, [], (List.append_nil _).symm, rfl⟩
  | send more next ih =>
    refine (s.safe_dispatch more hv settled hslot).bind fun result scene busy hdispatch ↦ ?_
    refine (safe_tell rfl fun _ ↦ hdispatch.leaves).bind fun _ scene busy hview ↦ ?_
    refine (ih result hview hdispatch.settled.told (hdispatch.slot.trans hslot)).mono
      fun a w ⟨hsettled, hslot, hshared, hplan, rest, htold, houtcome⟩ ↦ ?_
    refine ⟨hsettled, hslot.trans hdispatch.slot, ?_, ?_, result :: rest, ?_, houtcome⟩
    · rw [hshared, View.after_told]
      exact hdispatch.shared rfl
    · rw [hplan, View.after_told]
      exact hdispatch.plan rfl
    · rw [htold, View.after_told, ← hdispatch.told rfl]
      exact (List.append_cons ..).symm

/-- A penalty tool may send, and leaves the dispatch settled. -/
theorem safe_penalize (s : Session) (kind : PenaltyKind) (r : Reviewable) (p : Pending)
    (idle : (scene.view busy).Idle) (hslot : (scene.view busy).slot = some p.number) :
    (s.penalize kind r p).Safe .call (fun _ v ↦ v.Settled false [] ∧ v.slot = some p.number ∧
      v.plan = none) scene busy := by
  unfold penalize
  cases r.author with
  | none => exact ⟨idle.settled, hslot, idle.plan⟩
  | some user =>
    refine (safe_handOut (.penalize kind user r) idle hslot rfl rfl).bind
      fun plan scene busy ⟨hsettled, hslot, _, hplan, _⟩ ↦ ?_
    exact (s.safe_carryOut p plan rfl hsettled hslot).mono
      fun _ _ ⟨hsettled, hslot', _, hplan', _⟩ ↦ ⟨hsettled, hslot'.trans hslot, hplan'.trans hplan⟩

/-- Giving the claim back where there was no penalty leaves it settled, too. -/
theorem safe_runPenalty (s : Session) (kind : PenaltyKind) (r : Reviewable) (p : Pending)
    (idle : (scene.view busy).Idle) (hslot : (scene.view busy).slot = some p.number) :
    (s.runPenalty kind r p).Safe .call (fun _ v ↦ v.Settled false [] ∧ v.slot = some p.number ∧
      v.plan = none) scene busy := by
  unfold runPenalty
  split
  · refine (s.safe_penalize kind r p idle hslot).bind fun penalized scene busy hview ↦ ?_
    cases penalized with
    | true => exact hview
    | false =>
      refine Safe.mono (Calm.safe_plain (V := fun _ ↦ True) ?_ (fun _ hv ↦ hv.1)
        (fun query v v' hplain hv hresumes ↦ ?_) hview) fun _ _ hw ↦ hw.2
      · refine (s.calm_release r).bind fun released _ ↦ ?_
        cases released with
        | ok sent => exact calm_pure trivial
        | error fault => exact calm_note rfl
      · have hsettled := hresumes.settled
        rw [hplain.1] at hsettled
        exact ⟨hsettled, hresumes.slot.trans hv.2.1, (hresumes.plan rfl).trans hv.2.2⟩
  · exact ⟨idle.settled, hslot, idle.plan⟩

/-- An edit dispatches the action if the editor let it through, and does nothing otherwise. -/
theorem safe_runEdit (s : Session) (r : Reviewable) (p : Pending)
    (idle : (scene.view busy).Idle) (hslot : (scene.view busy).slot = some p.number) :
    (s.runEdit r p).Safe .call (fun result v ↦ v.Returned p.number result) scene busy := by
  refine ((calm_query ⟨rfl, rfl⟩).safe_idle ⟨idle, hslot⟩).bind
    fun editable scene busy ⟨_, hidle, hslot⟩ ↦ ?_
  cases editable with
  | false => exact ⟨hidle.settled, hslot, fun _ ↦ hidle.done, by simp⟩
  | true =>
    refine (s.safe_dispatch ∅ rfl hidle.settled hslot).bind fun result scene busy hdispatch ↦ ?_
    have hsecret := (hdispatch.shared rfl).trans hidle.secret
    refine ⟨hdispatch.settled.secret hsecret, hdispatch.slot.trans hslot, fun _ ↦ ?_, ?_⟩
    · simp [Plan.Done, (hdispatch.plan rfl).trans hidle.plan]
    · rintro fault hfault
      cases result with
      | ok completion => cases hfault
      | error fault =>
        have hfree := (hdispatch.error fault rfl).resolve_right fun hlate ↦ by
          simp [hidle.free] at hlate
        exact .inl ⟨hfree, ((hdispatch.settled.secret hsecret).none_of_free hfree).2.2⟩

/-- Every workflow returns, and if all went well its plan is done. -/
theorem safe_runWorkflow (s : Session) (workflow : Workflow) (r : Reviewable) (p : Pending)
    (idle : (scene.view busy).Idle) (hslot : (scene.view busy).slot = some p.number) :
    (s.runWorkflow workflow r p).Safe .call (fun result v ↦ v.Returned p.number result)
      scene busy := by
  cases workflow with
  | penalty kind =>
    refine (s.safe_runPenalty kind r p idle hslot).bind
      fun _ scene busy ⟨hsettled, hslot, hplan⟩ ↦ ?_
    exact ⟨hsettled, hslot, fun _ ↦ by simp [Plan.Done, hplan], by simp⟩
  | edit => exact s.safe_runEdit r p idle hslot
  | custom name =>
    refine (safe_handOut (.run name r p.action) idle hslot rfl rfl).bind
      fun plan scene busy ⟨hsettled, hslot, hshared, hplan, htold⟩ ↦ ?_
    refine (s.safe_carryOut p plan rfl hsettled hslot).mono
      fun result w ⟨hsettled, hslot', hshared', hplan', more, htold', houtcome⟩ ↦ ?_
    have hw : w.plan = some plan := hplan'.trans hplan
    have hreturned : plan.outcome w.told = some result := by
      rw [htold', htold]
      exact houtcome
    refine ⟨hsettled, hslot'.trans hslot, ?_, ?_⟩
    · rintro rfl other hother
      obtain rfl := Option.some.inj (hw.symm.trans hother)
      exact hreturned
    · rintro fault rfl
      exact .inr ⟨hshared'.trans hshared, plan, hw, hreturned⟩

/-- The dispatch that a call creates is its own. -/
theorem safe_create (action : Action) (extra : Fields) (idle : (scene.view busy).Idle) :
    (Pending.create id action extra).Safe .call
      (fun p v ↦ v.Idle ∧ v.slot = some p.number) scene busy := by
  have htells : scene.tells (fun s ↦ { s with dispatches := s.dispatches ++ [default] }) = [] := by
    simp [Scene.tells]
  have hview : (scene.change fun s ↦ { s with dispatches := s.dispatches ++ [default] }).view busy =
      { scene.view busy with
        slot := some scene.state.dispatches.length
        dispatch := some default } := by
    simp [Scene.change, htells, Scene.view]
  refine ⟨⟨?_, by simp, by simp [htells]⟩, ?_⟩
  · rintro (hrole | hshared)
    · cases hrole
    · have hsecret : scene.log.isShared = false := idle.secret
      simp [hsecret] at hshared
  · change View.Idle _ ∧ _ = _
    rw [hview]
    exact ⟨idle.create _, rfl⟩

/-- The completion that is looked up is the one that the view has. -/
theorem safe_completion {p : Pending} {v : View} (hv : scene.view busy = v)
    (hslot : v.slot = some p.number) :
    p.completion.Safe .call (fun completion w ↦ completion = v.completion ∧ w = v) scene busy := by
  subst hv
  have hscene : scene.slot = some p.number := hslot
  refine ⟨Scene.silent_id.admits scene .call, ?_, ?_⟩
  · simp [View.completion, Scene.view, hscene]
  · exact Scene.silent_id.view busy

/-! ## The call -/

/-- The outcome of a workflow is told by the completion that is there in the end. -/
theorem safe_performByWorkflow (s : Session) (workflow : Workflow) (action : Action)
    (extra : Fields) (idle : (scene.view busy).Idle) :
    (s.performByWorkflow workflow id action extra).Safe .call (fun outcome v ↦ v.Verdict outcome)
      scene busy := by
  refine ((calm_lookUp id).safe_silent idle).bind fun copy scene busy ⟨_, hidle⟩ ↦ ?_
  cases copy with
  | none => exact hidle.verdict_error (.unknownReviewable id)
  | some r =>
    refine (safe_create action extra hidle).bind fun p scene busy ⟨hidle, hslot⟩ ↦ ?_
    refine (s.safe_runWorkflow workflow r p hidle hslot).bind fun result scene busy hreturned ↦ ?_
    cases result with
    | error fault => exact hreturned.error fault rfl
    | ok done =>
      have hverdict := hreturned.verdict
      refine (safe_completion rfl hreturned.slot).bind
        fun completion scene busy ⟨hcompletion, hview⟩ ↦ ?_
      rw [← hview] at hverdict hcompletion
      rw [← hcompletion] at hverdict
      cases completion with
      | some completion => exact hverdict
      | none => exact hverdict

/-- A confirmed action is sent once it has its claim, directly or by its workflow. -/
theorem safe_performConfirmed (s : Session) (workflows : String → Option Workflow)
    (action : Action) (extra : Fields) (idle : (scene.view busy).Idle)
    (slot : (scene.view busy).slot = none) :
    (s.performConfirmed workflows id action extra).Safe .call (fun outcome v ↦ v.Verdict outcome)
      scene busy := by
  refine ((s.calm_ensureClaimed id).safe_idle ⟨idle, slot⟩).bind
    fun claimed scene busy ⟨_, hidle, hslot⟩ ↦ ?_
  cases claimed with
  | false => exact hidle.verdict_aborted .claimRefused
  | true => cases workflowOf workflows action with
    | error fault => exact hidle.verdict_error fault
    | ok workflow => cases workflow with
      | none =>
        exact (s.safe_send id action extra (hidle.holds hslot) hidle.free).bind
          fun result scene busy hsends ↦ hidle.verdict_of_sends hsends
      | some workflow => exact s.safe_performByWorkflow workflow action extra hidle

theorem safe_performAsking (s : Session) (message : String)
    (workflows : String → Option Workflow) (action : Action) (extra : Fields)
    (idle : (scene.view busy).Idle) (slot : (scene.view busy).slot = none) :
    (s.performAsking message workflows id action extra).Safe .call
      (fun outcome v ↦ v.Verdict outcome) scene busy := by
  refine ((s.calm_ensureClaimed id).safe_idle ⟨idle, slot⟩).bind
    fun claimed scene busy ⟨_, hidle, hslot⟩ ↦ ?_
  cases claimed with
  | false => exact hidle.verdict_aborted .claimRefused
  | true =>
    refine ((calm_query ⟨rfl, rfl⟩).safe_idle ⟨hidle, hslot⟩).bind
      fun confirmed scene busy ⟨_, hidle, hslot⟩ ↦ ?_
    cases confirmed with
    | false => exact hidle.verdict_aborted .confirmationDismissed
    | true => exact s.safe_performConfirmed workflows action extra hidle hslot

/-- A form that is closed ends the call before anything was sent. -/
theorem safe_performFilling (s : Session) (form : String)
    (workflows : String → Option Workflow) (action : Action) (extra : Fields)
    (idle : (scene.view busy).Idle) (slot : (scene.view busy).slot = none) :
    (s.performFilling form workflows id action extra).Safe .call
      (fun outcome v ↦ v.Verdict outcome) scene busy := by
  unfold performFilling
  split
  · refine ((s.calm_ensureClaimed id).safe_idle ⟨idle, slot⟩).bind
      fun claimed scene busy ⟨_, hidle, hslot⟩ ↦ ?_
    cases claimed with
    | false => exact hidle.verdict_aborted .claimRefused
    | true =>
      refine ((calm_lookUp id).safe_idle ⟨hidle, hslot⟩).bind
        fun copy scene busy ⟨_, hidle, hslot⟩ ↦ ?_
      cases copy with
      | none => exact hidle.verdict_error (.unknownReviewable id)
      | some r =>
        refine ((calm_query ⟨rfl, rfl⟩).safe_idle ⟨hidle, hslot⟩).bind
          fun entered scene busy ⟨_, hidle, hslot⟩ ↦ ?_
        cases entered with
        | none => exact hidle.verdict_aborted .formDismissed
        | some entered =>
          exact s.safe_performConfirmed workflows action (extra.overlay entered) hidle hslot
  · exact idle.verdict_error (.missingForm action.name form)

/-- Under its guard a call comes to a verdict, whatever it asks first. -/
theorem safe_performMarked (s : Session) (workflows : String → Option Workflow) (action : Action)
    (extra : Fields) (idle : (scene.view busy).Idle) (slot : (scene.view busy).slot = none) :
    (s.performMarked workflows id action extra).Safe .call (fun outcome v ↦ v.Verdict outcome)
      scene busy := by
  unfold performMarked
  split
  · exact idle.verdict_error _
  · split
    · exact s.safe_performAsking _ _ action extra idle slot
    · exact s.safe_performFilling _ _ action extra idle slot
    · exact s.safe_performConfirmed _ action extra idle slot

/-- Whatever the others do, a call keeps to what they rely on, and its outcome is right. -/
theorem safe_performCall (s : Session) (action : Action) (extra : Fields)
    (idle : (scene.view busy).Idle) (slot : (scene.view busy).slot = none) :
    (s.perform id action extra).Safe .call (fun outcome v ↦ v.Verdict outcome) scene busy := by
  unfold perform performWith withUpdate Safe
  cases scene.state.store.beginUpdate id with
  | error fault => exact idle.verdict_error fault
  | ok store =>
    exact Safe.bind (s.safe_performMarked s.workflow? action extra idle slot)
      fun outcome scene busy hverdict ↦ hverdict

end Session

end Moderation
