import Moderation.Proofs.Session.Turns

/-!
# Sending is safe

A send takes the right to send from the dispatch before it asks for the action, and gives it back
when that fails. So it is safe wherever the dispatch stands as it should. All that it does besides
is calm: nothing of it concerns the dispatch.
-/

namespace Moderation

namespace View

variable {role : Role} {query : Query} {v v' w : View} {n : Nat}
  {unsaid : List (Except SessionFault Completion)}

/-- A question that neither performs nor hands out the action does not concern its dispatch. -/
theorem after_asked (performs : query.performs = false) (handsOut : query.handsOut = false)
    (v : View) : v.after (.asked query) = v := by
  simp only [after, Stage.after_of_silent (h := .asked query) performs, Happening.handsOut,
    handsOut, Bool.or_false]
  simp [Happening.plan?, Log.told, Log.results, Happening.told?, Happening.result?]

/-- Nor does the answer to such a question. -/
theorem after_answered (performs : query.performs = false) (handsOut : query.handsOut = false)
    (answer : query.Answer) (v : View) : v.after (.answered query answer) = v := by
  simp only [after, Stage.after_of_silent (h := .answered query answer) performs,
    Happening.plan?_answered handsOut]
  simp [Happening.handsOut, Log.told, Log.results, Happening.told?, Happening.result?]

/-- With the request the action is under way. -/
theorem after_asked_perform (id : ReviewableId) (action : String) (version : UInt64) (data : Fields)
    (v : View) :
    v.after (.asked (.call (.perform id action version data))) = { v with stage := .underWay } := by
  simp [after, Stage.after, Happening.handsOut, Query.handsOut, Happening.plan?, Log.told,
    Log.results, Happening.told?, Happening.result?]

/-- With a result the action has landed. -/
theorem after_granted (id : ReviewableId) (action : String) (version : UInt64) (data : Fields)
    (result : PerformResult) (v : View) :
    v.after (.answered (.call (.perform id action version data)) (.ok result)) =
      { v with stage := .landed result } := by
  simp [after, Stage.after, Happening.handsOut, Happening.plan?, Log.told, Log.results,
    Happening.told?, Happening.result?]

/-- With a refusal it has failed, and may be sent once more. -/
theorem after_refused (id : ReviewableId) (action : String) (version : UInt64) (data : Fields)
    (fault : BackendFault) (v : View) :
    v.after (.answered (.call (.perform id action version data)) (.error fault)) =
      { v with stage := .failed } := by
  simp [after, Stage.after, Happening.handsOut, Happening.plan?, Log.told, Log.results,
    Happening.told?, Happening.result?]

/-- Who holds the right to send may go through the stages of a send. -/
theorem Holds.withStage (holds : v.Holds) (stage : Stage) : { v with stage }.Holds :=
  ⟨holds.alone, holds.dispatch, holds.direct, holds.none_ok⟩

/-- While a request is under way, or what became of the reviewable is asked, the dispatch stands as
it should. -/
theorem Holds.settled (holds : v.Holds) (taken : v.stage.isTaken = true) : v.Settled true [] where
  standing n hslot := by
    refine ⟨⟨true, none⟩, ?_, .taken taken⟩
    rw [holds.dispatch, hslot]
    rfl
  direct hslot := by
    refine ⟨?_, holds.direct hslot, holds.alone⟩
    rw [holds.dispatch, hslot]
    rfl
  completed completion hok := by
    rw [List.append_nil] at hok
    exact absurd hok (holds.none_ok completion)
  said _ completion hcompletion := by
    rw [View.completion, holds.dispatch] at hcompletion
    cases hslot : v.slot <;> simp [hslot] at hcompletion

/-- A send that goes on alone holds the right to send. -/
theorem Settled.holds (settled : v.Settled true []) (alone : v.busy = false) : v.Holds := by
  have hdispatch : v.dispatch = v.slot.map fun _ ↦ ⟨true, none⟩ := by
    cases hslot : v.slot with
    | none => exact (settled.direct hslot).1
    | some n =>
      obtain ⟨dispatch, hdispatch, hstanding⟩ := settled.standing n hslot
      rw [hdispatch, hstanding.eq_of_busy]
      rfl
  refine ⟨alone, hdispatch, fun hslot ↦ (settled.direct hslot).2.1, fun completion hok ↦ ?_⟩
  have hcompletion := settled.completed completion (List.mem_append_left _ hok)
  rw [View.completion, hdispatch] at hcompletion
  cases hslot : v.slot <;> simp [hslot] at hcompletion

/-- To settle with an error changes nothing but what is still to be told. -/
theorem Settled.error {sends : Bool} (settled : v.Settled sends []) (fault : SessionFault) :
    v.Settled sends [.error fault] where
  standing := settled.standing
  direct := settled.direct
  completed completion hok := settled.completed completion (by simpa using hok)
  said hshared completion hcompletion := by
    simpa using settled.said hshared completion hcompletion

/-- Who comes to the dispatch finds it taken, or takes it. -/
theorem Settled.taken_or_free (settled : v.Settled false []) (hslot : v.slot = some n) :
    (v.stage.isTaken = true ∧ ∃ completion, v.dispatch = some ⟨true, completion⟩) ∨
      v.stage.isTaken = false ∧ v.dispatch = some ⟨false, none⟩ ∧ v.busy = false := by
  obtain ⟨dispatch, hdispatch, hstanding⟩ := settled.standing n hslot
  rw [Bool.false_or] at hstanding
  generalize hbusy : v.busy = busy at hstanding
  generalize v.stage = stage at hstanding ⊢
  cases hstanding with
  | free hfree => exact .inr ⟨hfree, hdispatch, rfl⟩
  | taken htaken => exact .inl ⟨htaken, none, hdispatch⟩
  | sent completion => exact .inl ⟨rfl, some completion, hdispatch⟩

/-- Who finds the dispatch free takes the right to send. -/
theorem Settled.take (settled : v.Settled false []) (hslot : v.slot = some n)
    (free : v.stage.isTaken = false) : { v with dispatch := some ⟨true, none⟩ }.Holds := by
  rcases settled.taken_or_free hslot with ⟨htaken, -⟩ | ⟨-, hdispatch, hbusy⟩
  · simp [htaken] at free
  · refine ⟨hbusy, by simp [hslot], by simp [hslot], fun completion hok ↦ ?_⟩
    have hcompletion := settled.completed completion (List.mem_append_left _ hok)
    simp [View.completion, hdispatch] at hcompletion

/-- After a failure the right to send goes back, and the failure is still to be told. -/
theorem Holds.giveBack (holds : v.Holds) (hslot : v.slot = some n) (free : v.stage.isTaken = false)
    (fault : SessionFault) :
    { v with dispatch := some ⟨false, none⟩ }.Settled false [.error fault] where
  standing _ _ := ⟨_, rfl, by simpa [holds.alone] using Standing.free free⟩
  direct hnone := by simp [hslot] at hnone
  completed completion hok := absurd (by simpa using hok) (holds.none_ok completion)
  said _ completion hcompletion := by simp [View.completion] at hcompletion

/-- The result that landed is put down as the completion, and is still to be told. -/
theorem Holds.complete (holds : v.Holds) (hslot : v.slot = some n) {completion : Completion}
    (landed : v.stage = .landed completion.result) :
    { v with dispatch := some ⟨true, some completion⟩ }.Settled false [.ok completion] where
  standing _ _ := ⟨_, rfl, by simpa [holds.alone, landed] using Standing.sent completion⟩
  direct hnone := by simp [hslot] at hnone
  completed other hok := by
    rcases List.mem_append.mp hok with hbefore | hlast
    · exact absurd hbefore (holds.none_ok other)
    · obtain rfl := Except.ok.inj (List.mem_singleton.mp hlast)
      rfl
  said _ other hother := by
    obtain rfl : completion = other := by simpa [View.completion] using hother
    simp

/-- Where a send comes to that has the right to send. -/
structure Sends (role : Role) (v : View) (result : Except SessionFault Completion) (v' : View) :
    Prop extends Keeps role v v' where
  holds : v'.Holds
  ok : ∀ completion, result = .ok completion → v'.stage = .landed completion.result
  error : ∀ fault, result = .error fault → v'.stage.isTaken = false

/-- Where a send comes to that goes by the dispatch. -/
structure Dispatches (role : Role) (id : ReviewableId) (v : View)
    (result : Except SessionFault Completion) (v' : View) : Prop extends Keeps role v v' where
  settled : v'.Settled false [result]
  error : ∀ fault, result = .error fault → v'.stage.isTaken = false ∨
    v.stage.isTaken = true ∧ fault = .alreadyDispatched id

/-- A result that is given out is not unsaid any more. -/
theorem Settled.say {result : Except SessionFault Completion} (settled : v.Settled false [result])
    (told : List (Except SessionFault Completion)) :
    { v with told, results := v.results ++ [result] }.Settled false [] where
  standing := settled.standing
  direct := settled.direct
  completed completion hok := settled.completed completion (by simpa using hok)
  said hshared completion hcompletion :=
    List.mem_append_left _ (settled.said hshared completion hcompletion)

theorem after_told (result : Except SessionFault Completion) (v : View) :
    v.after (.told result) =
      { v with told := v.told ++ [result], results := v.results ++ [result] } := by
  simp [after, Stage.after, Happening.handsOut, Happening.plan?, Log.told, Log.results,
    Happening.told?, Happening.result?]

theorem after_ended (result : Except SessionFault Completion) (v : View) :
    v.after (.ended result) = { v with results := v.results ++ [result] } := by
  simp [after, Stage.after, Happening.handsOut, Happening.plan?, Log.told, Log.results,
    Happening.told?, Happening.result?]

/-- What was still to be told has been told. -/
theorem Settled.told {result : Except SessionFault Completion}
    (settled : v.Settled false [result]) : (v.after (.told result)).Settled false [] := by
  rw [after_told]
  exact settled.say _

/-- A call that ends gives its result out. -/
theorem Settled.ended {result : Except SessionFault Completion}
    (settled : v.Settled false [result]) : (v.after (.ended result)).Settled false [] := by
  rw [after_ended]
  exact settled.say _

/-- The dispatch has a completion once the backend performed the action. -/
theorem Settled.landed {sends : Bool} (settled : v.Settled sends unsaid) {completion : Completion}
    (completed : v.completion = some completion) : v.stage = .landed completion.result := by
  cases hslot : v.slot with
  | none => simp [View.completion, (settled.direct hslot).1] at completed
  | some n =>
    obtain ⟨dispatch, hdispatch, hstanding⟩ := settled.standing n hslot
    rw [View.completion, hdispatch, Option.bind_some] at completed
    generalize v.stage = stage at hstanding ⊢
    generalize (sends || v.busy) = held at hstanding
    cases hstanding with
    | free | taken => cases completed
    | sent other =>
      obtain rfl := Option.some.inj completed
      rfl

/-- Who comes too late is told so. -/
theorem Dispatches.leaves {id : ReviewableId} {result : Except SessionFault Completion}
    (dispatches : v.Dispatches role id result v') {performed : PerformResult}
    (landed : v'.stage = .landed performed) : performed.Leaves result := by
  cases result with
  | ok completion =>
    have hstage := dispatches.settled.landed (dispatches.settled.completed completion (by simp))
    rw [landed] at hstage
    exact .inr ⟨completion, rfl, (Stage.landed.inj hstage).symm⟩
  | error fault =>
    rcases dispatches.error fault rfl with hfree | ⟨-, rfl⟩
    · rw [landed] at hfree
      cases hfree
    · exact .inl ⟨id, rfl⟩

end View

namespace Task

variable {α β : Type} {role : Role} {asks : Query → Prop} {V : α → Prop} {W : β → Prop}

/-- The task has nothing to do with any dispatch. -/
def Calm (asks : Query → Prop) (V : α → Prop) : Task α → Prop
  | done a => V a
  | sync change next =>
    (Scene.Silent change ∧ ∀ state, (change state).dispatches = state.dispatches) ∧
      ∀ state, (next state).Calm asks V
  | mark .. | unmark .. => False
  | ask query next => asks query ∧ ∀ answer, (next answer).Calm asks V

/-- What follows may build on what the task came to. -/
theorem Calm.bind {task : Task α} {rest : α → Task β} (first : task.Calm asks V)
    (second : ∀ a, V a → (rest a).Calm asks W) : (task >>= rest).Calm asks W := by
  change (task.bind rest).Calm asks W
  induction task with
  | done a => exact second a first
  | sync change next ih => exact ⟨first.1, fun state ↦ ih state (first.2 state)⟩
  | mark | unmark => exact first.elim
  | ask query next ih => exact ⟨first.1, fun answer ↦ ih answer (first.2 answer)⟩

theorem calm_pure {a : α} (h : V a) : (pure a : Task α).Calm asks V := h

theorem calm_onStore (operation : Store → Store.Revision α) :
    (onStore operation).Calm asks fun _ ↦ True := by
  refine ⟨⟨⟨fun _ ↦ rfl, fun state ↦ ⟨_, rfl, fun n hmem ↦ ?_⟩⟩, fun _ ↦ rfl⟩, fun _ ↦ trivial⟩
  obtain ⟨change, -, rfl⟩ := List.mem_map.mp hmem
  rfl

theorem calm_lookUp (id : ReviewableId) : (lookUp id).Calm asks fun _ ↦ True :=
  ⟨⟨Scene.silent_id, fun _ ↦ rfl⟩, fun _ ↦ trivial⟩

theorem calm_note {n : Note} (h : n.told? = none) : (note n).Calm asks fun _ ↦ True :=
  ⟨⟨⟨fun _ ↦ rfl, fun state ↦ ⟨[n], rfl, by simpa using h⟩⟩, fun _ ↦ rfl⟩, fun _ ↦ trivial⟩

theorem calm_query {query : Query} (h : asks query) : (Task.query query).Calm asks fun _ ↦ True :=
  ⟨h, fun _ ↦ trivial⟩

theorem calm_call {request : Request} (h : asks (.call request)) :
    (call request).Calm asks fun _ ↦ True := calm_query h

/-- A calm task keeps what lasts while it waits. -/
theorem Calm.safe {task : Task α} {P : View → Prop} {scene : Scene} {busy : Bool}
    (calm : task.Calm asks V)
    (plain : ∀ query, asks query → query.performs = false ∧ query.handsOut = false)
    (permits : ∀ query v, asks query → P v → v.Permits role query)
    (lasts : ∀ query v v', asks query → P v → v.Resumes role query v' → P v')
    (h : P (scene.view busy)) : task.Safe role (fun a v ↦ V a ∧ P v) scene busy := by
  induction task generalizing scene busy with
  | done a => exact ⟨calm, h⟩
  | sync change next ih =>
    obtain ⟨⟨hsilent, hdispatches⟩, hrest⟩ := calm
    refine ⟨hsilent.admits scene role, ih _ (hrest _) ?_⟩
    rw [hsilent.view, hdispatches]
    exact h
  | mark | unmark => exact calm.elim
  | ask query next ih =>
    obtain ⟨hasks, hrest⟩ := calm
    obtain ⟨hperforms, hhandsOut⟩ := plain query hasks
    refine ⟨permits query _ hasks h, fun answer scene' busy' hresumes ↦ ih answer (hrest answer) ?_⟩
    rw [View.after_asked hperforms hhandsOut] at hresumes
    rw [Scene.view_happens, View.after_answered hperforms hhandsOut]
    exact lasts query _ _ hasks h hresumes

/-- A calm task that asks nothing. -/
theorem Calm.safe_silent {task : Task α} {P : View → Prop} {scene : Scene} {busy : Bool}
    (calm : task.Calm (fun _ ↦ False) V) (h : P (scene.view busy)) :
    task.Safe role (fun a v ↦ V a ∧ P v) scene busy :=
  calm.safe (fun _ ↦ False.elim) (fun _ _ ↦ False.elim) (fun _ _ _ ↦ False.elim) h

end Task

namespace Session

open Moderation.Task

variable {role : Role} {scene : Scene} {busy : Bool} {id : ReviewableId}

theorem calm_reportFailure {asks : Query → Prop} (fault : BackendFault) :
    (reportFailure fault).Calm asks fun _ ↦ True := by
  have htell : (Task.failure fault.message).Calm asks fun _ ↦ True := calm_note rfl
  cases fault with
  | versionConflict message current => cases current with
    | some current => exact (calm_onStore _).bind fun _ _ ↦ htell
    | none => exact htell
  | claimConflict | rejected | transport | undecodable => exact htell

theorem calm_reload (id : ReviewableId) :
    (reload id).Calm (· = .call (.fetch id)) fun _ ↦ True := by
  refine Calm.bind (calm_call rfl) fun reply _ ↦ ?_
  cases reply with
  | ok r => exact (calm_onStore _).bind fun _ _ ↦ calm_pure trivial
  | error fault => exact (calm_note rfl).bind fun _ _ ↦ calm_pure trivial

/-- What comes of a result keeps the result, and fetches the reviewable at most. -/
theorem calm_applyResult (id : ReviewableId) (action : Action) (result : PerformResult) :
    (applyResult id action result).Calm (· = .call (.fetch id)) (·.result = result) := by
  have hdone : ∀ removed refreshed,
      Calm (· = .call (.fetch id)) (fun completion : Completion ↦ completion.result = result)
        (pure { result, removed, refreshed }) := fun _ _ ↦ calm_pure rfl
  obtain ⟨success, status, version, reviewable, removed, count, unseen⟩ := result
  unfold applyResult
  refine (calm_onStore _).bind fun _ _ ↦ ?_
  cases action.completion <;> cases reviewable <;> cases removed
  all_goals
    repeat first
      | exact hdone _ _
      | exact (calm_reload id).bind fun refreshed _ ↦ hdone _ refreshed
      | refine (calm_onStore _).bind fun _ _ ↦ ?_
      | refine Calm.bind (V := fun _ ↦ True) (calm_note rfl) fun _ _ ↦ ?_

/-! ## Sending -/

/-- Who has the right to send may ask for the action. -/
theorem safe_perform {action : String} {version : UInt64} {data : Fields}
    (holds : (scene.view busy).Holds) (free : (scene.view busy).stage.isTaken = false) :
    (call (.perform id action version data)).Safe role (fun reply v ↦
      v.Holds ∧ (scene.view busy).Keeps role v ∧ v.stage = match reply with
        | .ok result => .landed result
        | .error _ => .failed) scene busy := by
  refine ⟨⟨?_, fun _ ↦ holds.alone, fun _ ↦ free, fun _ ↦ rfl⟩,
    fun answer scene' busy' hresumes ↦ ?_⟩
  · rw [View.after_asked_perform]
    exact (holds.withStage .underWay).settled rfl
  · rw [View.after_asked_perform] at hresumes
    have hholds := hresumes.settled.holds (hresumes.alone (.inl rfl))
    have hkeeps : (scene.view busy).Keeps role (scene'.view busy') :=
      ⟨hresumes.slot, hresumes.shared, hresumes.plan, hresumes.told⟩
    change View.Holds _ ∧ View.Keeps _ _ _ ∧ View.stage _ = _
    rw [Scene.view_happens]
    cases answer with
    | ok result =>
      rw [View.after_granted]
      exact ⟨hholds.withStage _, ⟨hkeeps.slot, hkeeps.shared, hkeeps.plan, hkeeps.told⟩, rfl⟩
    | error fault =>
      rw [View.after_refused]
      exact ⟨hholds.withStage _, ⟨hkeeps.slot, hkeeps.shared, hkeeps.plan, hkeeps.told⟩, rfl⟩

/-- Nobody else sends before the result is taken over. -/
theorem safe_applyResult {action : Action} {result : PerformResult} {v : View}
    (holds : (scene.view busy).Holds) (landed : (scene.view busy).stage = .landed result)
    (keeps : v.Keeps role (scene.view busy)) :
    (applyResult id action result).Safe role (fun completion v' ↦ completion.result = result ∧
      v'.Holds ∧ v'.stage = .landed result ∧ v.Keeps role v') scene busy := by
  refine (calm_applyResult id action result).safe
    (P := fun v' ↦ v'.Holds ∧ v'.stage = .landed result ∧ v.Keeps role v') ?_ ?_ ?_
    ⟨holds, landed, keeps⟩
  · rintro _ rfl
    exact ⟨rfl, rfl⟩
  · rintro _ w rfl ⟨hholds, hlanded, -⟩
    refine ⟨?_, fun _ ↦ hholds.alone, nofun, fun _ ↦ rfl⟩
    rw [View.after_asked rfl rfl]
    exact hholds.settled (by rw [hlanded]; rfl)
  · rintro _ w w' rfl ⟨hholds, hlanded, hkeeps⟩ hresumes
    exact ⟨hresumes.settled.holds (hresumes.alone (.inl rfl)),
      (hresumes.stage (.inl rfl)).trans hlanded, hkeeps.trans hresumes.toKeeps⟩

/-- A send goes from the request to a result that landed, or to a failure. -/
theorem safe_send (s : Session) (id : ReviewableId) (action : Action) (extra : Fields)
    (holds : (scene.view busy).Holds) (free : (scene.view busy).stage.isTaken = false) :
    (s.send id action extra).Safe role (View.Sends role (scene.view busy)) scene busy := by
  generalize hv : scene.view busy = v at holds free ⊢
  refine ((calm_lookUp id).safe_silent (P := (· = v)) hv).bind fun copy scene busy ⟨_, hv⟩ ↦ ?_
  cases copy with
  | none =>
    change View.Sends _ _ (.error (.unknownReviewable id)) (scene.view busy)
    rw [hv]
    exact ⟨View.keeps_refl role v, holds, by simp, fun _ _ ↦ free⟩
  | some r =>
    rw [← hv] at holds free
    refine (safe_perform holds free).bind fun reply scene busy ⟨hholds, hkeeps, hstage⟩ ↦ ?_
    rw [hv] at hkeeps
    cases reply with
    | ok result =>
      refine (safe_applyResult hholds hstage hkeeps).bind
        fun completion scene busy ⟨hresult, hholds, hstage, hkeeps⟩ ↦ ?_
      change View.Sends _ _ (.ok completion) _
      refine ⟨hkeeps, hholds, ?_, by simp⟩
      rintro _ ⟨⟩
      rw [hstage, hresult]
    | error fault =>
      refine ((calm_reportFailure fault).safe_silent
        (P := fun w ↦ w.Holds ∧ v.Keeps role w ∧ w.stage = .failed) ⟨hholds, hkeeps, hstage⟩).bind
        fun _ scene busy ⟨_, hholds, hkeeps, hstage⟩ ↦ ?_
      change View.Sends _ _ (.error (.backend fault)) _
      exact ⟨hkeeps, hholds, by simp, fun _ _ ↦ by rw [hstage]; rfl⟩

theorem silent_modify (n : Nat) (f : Dispatch → Dispatch) :
    Scene.Silent fun s ↦ { s with dispatches := s.dispatches.modify n f } where
  length state := List.length_modify ..
  journal state := ⟨[], (List.append_nil _).symm, by simp⟩

/-- A change of the dispatch is seen in the view where the slot is its own. -/
theorem view_modify {n : Nat} {v : View} (hv : scene.view busy = v) (hslot : v.slot = some n)
    (f : Dispatch → Dispatch) :
    (scene.change fun s ↦ { s with dispatches := s.dispatches.modify n f }).view busy =
      { v with dispatch := v.dispatch.map f } := by
  subst hv
  have hscene : scene.slot = some n := hslot
  rw [(silent_modify n f).view]
  simp [Scene.view, hscene]

/-- The right to send is taken if it is free, and otherwise nothing happens. -/
theorem safe_take {p : Pending} {v : View} (hv : scene.view busy = v) (settled : v.Settled false [])
    (hslot : v.slot = some p.number) :
    p.take.Safe role (fun taken w ↦ taken = true ∧ v.stage.isTaken = true ∧ w = v ∨
      taken = false ∧ v.stage.isTaken = false ∧ w = { v with dispatch := some ⟨true, none⟩ })
      scene busy := by
  refine ⟨(silent_modify _ _).admits scene role, ?_⟩
  have hdispatch : v.dispatch = scene.state.dispatches[p.number]? := by
    subst hv
    have hscene : scene.slot = some p.number := hslot
    simp [Scene.view, hscene]
  change _ ∨ _
  rw [view_modify hv hslot, ← hdispatch]
  rcases settled.taken_or_free hslot with ⟨htaken, completion, hd⟩ | ⟨hfree, hd, -⟩
  · refine .inl ⟨by simp [hd], htaken, ?_⟩
    rw [hd, Option.map_some, ← hd]
  · exact .inr ⟨by simp [hd], hfree, by simp [hd]⟩

/-- Giving the right back leaves a dispatch that was never taken. -/
theorem safe_giveBack {p : Pending} {v : View} (hv : scene.view busy = v) (holds : v.Holds)
    (hslot : v.slot = some p.number) :
    p.giveBack.Safe role (fun _ w ↦ w = { v with dispatch := some ⟨false, none⟩ }) scene busy := by
  refine ⟨(silent_modify _ _).admits scene role, ?_⟩
  change _ = _
  rw [view_modify hv hslot, holds.dispatch, hslot]
  rfl

/-- To complete a dispatch keeps the right to send for good. -/
theorem safe_complete {p : Pending} {v : View} (hv : scene.view busy = v) (holds : v.Holds)
    (hslot : v.slot = some p.number) (completion : Completion) :
    (p.complete completion).Safe role
      (fun _ w ↦ w = { v with dispatch := some ⟨true, some completion⟩ }) scene busy := by
  refine ⟨(silent_modify _ _).admits scene role, ?_⟩
  change _ = _
  rw [view_modify hv hslot, holds.dispatch, hslot]
  rfl

/-- Whoever sends goes by the dispatch, and leaves it as it should be. -/
theorem safe_dispatch (s : Session) {p : Pending} (more : Fields) {v : View}
    (hv : scene.view busy = v) (settled : v.Settled false []) (hslot : v.slot = some p.number) :
    (s.dispatch p more).Safe role (View.Dispatches role p.id v) scene busy := by
  refine (safe_take hv settled hslot).bind fun taken scene busy htake ↦ ?_
  rcases htake with ⟨rfl, htaken, hview⟩ | ⟨rfl, hfree, hview⟩
  · change View.Dispatches _ _ _ (.error (.alreadyDispatched p.id)) (scene.view busy)
    rw [hview]
    exact ⟨View.keeps_refl role v, settled.error _, fun fault hfault ↦
      .inr ⟨htaken, (Except.error.inj hfault).symm⟩⟩
  · refine Safe.bind (s.safe_send p.id p.action (p.extra.overlay more) ?_ ?_)
      fun result scene busy hsends ↦ ?_
    · rw [hview]
      exact settled.take hslot hfree
    · rw [hview]
      exact hfree
    · rw [hview] at hsends
      have hkeeps : v.Keeps role (scene.view busy) :=
        ⟨hsends.slot, hsends.shared, hsends.plan, hsends.told⟩
      have hslot' : (scene.view busy).slot = some p.number := hsends.slot.trans hslot
      cases result with
      | ok completion =>
        refine (safe_complete rfl hsends.holds hslot' completion).bind fun _ after busy' hafter ↦ ?_
        change View.Dispatches _ _ _ (.ok completion) (after.view busy')
        rw [hafter]
        exact ⟨⟨hkeeps.slot, hkeeps.shared, hkeeps.plan, hkeeps.told⟩,
          hsends.holds.complete hslot' (hsends.ok completion rfl), by simp⟩
      | error fault =>
        have hfailed := hsends.error fault rfl
        refine (safe_giveBack rfl hsends.holds hslot').bind fun _ after busy' hafter ↦ ?_
        change View.Dispatches _ _ _ (.error fault) (after.view busy')
        rw [hafter]
        exact ⟨⟨hkeeps.slot, hkeeps.shared, hkeeps.plan, hkeeps.told⟩,
          hsends.holds.giveBack hslot' hfailed fault, fun _ _ ↦ .inl hfailed⟩

end Session

end Moderation
