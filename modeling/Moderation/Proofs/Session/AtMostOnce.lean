import Moderation.Proofs.Session.Parties
import Moderation.Proofs.Specimen

/-!
# An action is sent at most once

Whatever the moderator, the backend and the workflows do, a call has its action performed at most
once, and nothing is sent for it afterwards. The outcome of the call tells what became of the
action.
-/

namespace Moderation

/-- What a send meets that is started now: it comes too late, without a question and without a
trace, if the action is being sent or was performed. Otherwise it asks for the action, if the
session has the reviewable. -/
structure Scene.Meets (scene : Scene) (s : Session) (p : Session.Pending) (more : Fields) :
    Prop where
  late : scene.log.stage.isTaken = true →
    (s.dispatch p more).advance scene = (.ended (.error (.alreadyDispatched p.id)), scene)
  again : scene.log.stage.isTaken = false → ∀ r, scene.state.store.get? p.id = some r →
    ∃ next, ((s.dispatch p more).advance scene).1 =
      .waits (.call (.perform p.id p.action.name r.version
        (Payload.build r (p.extra.overlay more) (s.config.parametersOf r.kind)))) next

namespace Course

variable {course : Course} {sender : Option Party} {scene : Scene}

theorem change_take_of_taken {n : Nat} {completion : Option Completion}
    (taken : scene.state.dispatches[n]? = some ⟨true, completion⟩) :
    scene.change (fun state ↦ { state with
      dispatches := state.dispatches.modify n fun d ↦ { d with sent := true } }) = scene := by
  have hsame : scene.state.dispatches.modify n (fun d ↦ { d with sent := true }) =
      scene.state.dispatches := by
    apply List.ext_getElem?
    intro m
    rw [List.getElem?_modify]
    by_cases hm : n = m
    · subst hm
      simp [taken]
    · simp [hm]
  rw [(Session.silent_modify _ _).change_eq, hsame]

/-- A send that comes while the action is being sent, or after it was, asks nothing. -/
theorem advance_dispatch_taken (s : Session) (p : Session.Pending) (more : Fields)
    {completion : Option Completion}
    (taken : scene.state.dispatches[p.number]? = some ⟨true, completion⟩) :
    (s.dispatch p more).advance scene = (.ended (.error (.alreadyDispatched p.id)), scene) := by
  have htake : p.take.advance scene = (.ended true, scene) := by
    change (Pause.ended (scene.state.dispatches[p.number]?.any (·.sent)), scene.change _) = _
    rw [taken, change_take_of_taken taken]
    rfl
  rw [Session.dispatch, Task.advance_bind, htake]
  rfl

theorem advance_send (s : Session) {id : ReviewableId} (action : Action) (extra : Fields)
    {r : Reviewable} (copy : scene.state.store.get? id = some r) :
    ∃ next, ((s.send id action extra).advance scene).1 =
      .waits (.call (.perform id action.name r.version
        (Payload.build r extra (s.config.parametersOf r.kind)))) next := by
  have hlookUp : (Task.lookUp id).advance scene =
      (.ended (some r), scene.change fun state ↦ state) := by
    rw [← copy]
    rfl
  rw [Session.send, Task.withCopy, Task.advance_bind, hlookUp]
  exact ⟨_, rfl⟩

/-- A send that comes to a free dispatch asks for the action, if the session has the reviewable. -/
theorem advance_dispatch_free (s : Session) (p : Session.Pending) (more : Fields) {r : Reviewable}
    (free : scene.state.dispatches[p.number]? = some ⟨false, none⟩)
    (copy : scene.state.store.get? p.id = some r) :
    ∃ next, ((s.dispatch p more).advance scene).1 =
      .waits (.call (.perform p.id p.action.name r.version
        (Payload.build r (p.extra.overlay more) (s.config.parametersOf r.kind)))) next := by
  obtain ⟨after, hafter, hcopy⟩ : ∃ after, p.take.advance scene = (.ended false, after) ∧
      after.state.store.get? p.id = some r := by
    refine ⟨scene.change fun state ↦ { state with
      dispatches := state.dispatches.modify p.number fun d ↦ { d with sent := true } }, ?_, copy⟩
    change (Pause.ended (scene.state.dispatches[p.number]?.any (·.sent)), scene.change _) = _
    rw [free]
    rfl
  obtain ⟨next, hsend⟩ := advance_send s p.action (p.extra.overlay more) hcopy
  rw [Session.dispatch, Task.advance_bind, hafter]
  simp only [Bool.false_eq_true, if_false]
  rw [Task.advance_bind]
  generalize (s.send p.id p.action (p.extra.overlay more)).advance after = sent at hsend
  obtain ⟨pause, scene⟩ := sent
  obtain rfl : pause = _ := hsend
  exact ⟨_, rfl⟩

theorem Sound.meets (sound : course.Sound sender) {query : Query}
    {next : query.Answer → Task (Except SessionFault Outcome)}
    (hcall : course.call = .waits query next) (s : Session) {p : Session.Pending} (more : Fields)
    (hslot : course.scene.slot = some p.number) : course.scene.Meets s p more := by
  obtain ⟨dispatch, _, hdispatch, hstanding⟩ := sound.exists_dispatch hcall hslot
  refine ⟨fun htaken ↦ ?_, fun hfree r hcopy ↦ ?_⟩
  · have htaken' : course.scene.state.dispatches[p.number]? =
        some ⟨true, dispatch.completion⟩ := by
      rw [hdispatch, ← hstanding.sent_eq.trans htaken]
    exact advance_dispatch_taken s p more htaken'
  · refine advance_dispatch_free s p more ?_ hcopy
    rw [hdispatch, hstanding.eq_of_free hfree]

/-! ## What a call comes to -/

/-- The outcome of a call tells what became of the action: it is completed if a send succeeded and
the client workflow, if one was started, returned normally, and it is aborted only if no send
succeeded. A send that its workflow gave up is neither. -/
structure Right (course : Course) (outcome : Except SessionFault Outcome) : Prop where
  completed : ∀ completion, outcome = .ok (.completed completion) →
    course.scene.log.grants = [completion.result]
  by_workflow : course.scene.log.isShared = true → ∀ completion,
    (outcome = .ok (.completed completion) ↔ .ok completion ∈ course.scene.log.results ∧
      Plan.Done course.scene.log.plan? course.scene.log.told)
  by_itself : course.scene.log.isShared = false →
    ((∃ completion, outcome = .ok (.completed completion)) ↔ course.scene.log.grants ≠ [])
  aborted : ∀ reason, outcome = .ok (.aborted reason) →
    (∀ completion, .ok completion ∉ course.scene.log.results) ∧
      ((∀ send ∈ course.sends, ∃ result, send = .ended result) → course.scene.log.grants = []) ∧
      (reason ≠ .workflowIncomplete → ∀ h ∈ course.scene.log, h.performs = false)
  failed : ∀ fault, outcome = .error fault → course.scene.log.grants = [] ∨
    Plan.Failed course.scene.log.plan? course.scene.log.told fault

theorem grants_eq_nil (sound : course.Sound sender)
    (free : course.scene.log.stage.isTaken = false) : course.scene.log.grants = [] := by
  rw [List.eq_nil_iff_forall_not_mem]
  intro result hmem
  rw [sound.orderly.mem_grants_iff.mp hmem] at free
  cases free

theorem grants_eq_singleton (sound : course.Sound sender) {result : PerformResult}
    (landed : course.scene.log.stage = .landed result) : course.scene.log.grants = [result] := by
  have hmem := sound.orderly.mem_grants_iff.mpr landed
  obtain ⟨other, hother⟩ := List.length_eq_one_iff.mp
    (Nat.le_antisymm sound.orderly.grants_length_le (List.length_pos_of_mem hmem))
  rw [hother, List.mem_singleton] at hmem
  rw [hother, hmem]

/-- Whoever else sends beside the call is one of its sends. -/
theorem Sound.exists_send (sound : course.Sound sender) (busy : beside sender .call = true) :
    ∃ send ∈ course.sends, send.sends = true := by
  obtain ⟨party, hsender, hne⟩ := beside_iff.mp busy
  cases party with
  | call => exact absurd rfl hne
  | send n =>
    obtain ⟨send, hsend, hsends⟩ := (sound.send_iff n).mpr hsender
    exact ⟨send, List.mem_of_getElem? hsend, hsends⟩

/-- As long as a task is sending, some send beside the call has not ended. -/
theorem Sound.free_of_ended (sound : course.Sound sender)
    (taken : course.scene.log.stage.isTaken = true → beside sender .call = true)
    (ended : ∀ send ∈ course.sends, ∃ result, send = .ended result) :
    course.scene.log.grants = [] := by
  apply grants_eq_nil sound
  rw [← Bool.not_eq_true]
  intro htaken
  obtain ⟨send, hsend, hsends⟩ := sound.exists_send (taken htaken)
  obtain ⟨result, rfl⟩ := ended send hsend
  cases hsends

theorem right_completed (sound : course.Sound sender) {completion : Completion}
    (verdict : (course.scene.view (beside sender .call)).Verdict (.ok (.completed completion))) :
    course.Right (.ok (.completed completion)) := by
  obtain ⟨hlanded, hdone, hsaid, honly⟩ := verdict
  have hgrants := grants_eq_singleton sound hlanded
  refine ⟨?_, fun hshared other ↦ ⟨?_, fun ⟨hok, _⟩ ↦ ?_⟩, fun _ ↦ ?_, by simp, by simp⟩
  · rintro _ ⟨⟩
    exact hgrants
  · rintro ⟨⟩
    exact ⟨hsaid hshared, hdone⟩
  · rw [honly other hok]
  · simp [hgrants]

theorem right_aborted (sound : course.Sound sender) {reason : Abort}
    (verdict : (course.scene.view (beside sender .call)).Verdict (.ok (.aborted reason))) :
    course.Right (.ok (.aborted reason)) := by
  obtain ⟨htaken, -, hnone, hunsent⟩ := verdict
  refine ⟨by simp, fun _ completion ↦ ?_, fun hsecret ↦ ?_, ?_, by simp⟩
  · exact iff_of_false (by simp) fun ⟨hok, _⟩ ↦ hnone completion hok
  · have hnil : course.sends = [] := by
      by_contra hne
      simp [sound.shared hne] at hsecret
    simp [sound.free_of_ended htaken (by simp [hnil])]
  · rintro _ ⟨⟩
    exact ⟨hnone, sound.free_of_ended htaken,
      fun hreason ↦ Log.stage_eq_unsent_iff.mp (hunsent hreason)⟩

theorem right_error (sound : course.Sound sender) {fault : SessionFault}
    (verdict : (course.scene.view (beside sender .call)).Verdict (.error fault)) :
    course.Right (.error fault) := by
  rcases verdict with ⟨hfree, hnone⟩ | ⟨hshared, hfailed⟩
  · have hgrants := grants_eq_nil sound hfree
    refine ⟨by simp, fun _ completion ↦ ?_, by simp [hgrants], by simp, fun _ _ ↦ .inl hgrants⟩
    exact iff_of_false (by simp) fun ⟨hok, _⟩ ↦ hnone completion hok
  · refine ⟨by simp, fun _ completion ↦ ?_, fun hsecret ↦ ?_, by simp, ?_⟩
    · exact iff_of_false (by simp) fun ⟨_, hdone⟩ ↦ hfailed.not_done hdone
    · change course.scene.log.isShared = true at hshared
      simp [hshared] at hsecret
    · rintro _ ⟨⟩
      exact .inr hfailed

theorem Sound.right (sound : course.Sound sender) {outcome : Except SessionFault Outcome}
    (hcall : course.call = .ended outcome) : course.Right outcome := by
  have hverdict : (course.scene.view (beside sender .call)).Verdict outcome := by
    have hrests := sound.call
    rwa [hcall] at hrests
  match outcome with
  | .ok (.completed completion) => exact right_completed sound hverdict
  | .ok (.aborted reason) => exact right_aborted sound hverdict
  | .error fault => exact right_error sound hverdict

/-- One call has its action performed at most once, whatever it is answered and whatever plans and
sends the workflows come up with: once the backend performed the action nothing is sent for it, and
every send comes too late, while after a failure it may be sent again. The outcome tells what became
of the action. -/
theorem action_performed_at_most_once (s : Session) (id : ReviewableId) (action : Action)
    (extra : Fields) (state : Session.State) (moves : List Move) :
    let course := run s id action (start s id action extra state) moves
    let log := course.scene.log
    log.Orderly ∧ log.grants.length ≤ 1 ∧
      (∀ result, result ∈ log.grants ↔ log.stage = .landed result) ∧
      (∀ query next, course.call = .waits query next →
        ∀ p more, course.scene.slot = some p.number → course.scene.Meets s p more) ∧
      ∀ outcome, course.call = .ended outcome → course.Right outcome := by
  intro course log
  obtain ⟨first, hstart⟩ := sound_start s id action extra state
  obtain ⟨sender, sound⟩ : ∃ sender, course.Sound sender := hstart.run s id action moves
  exact ⟨sound.orderly, sound.orderly.grants_length_le, fun _ ↦ sound.orderly.mem_grants_iff,
    fun query next hcall p more hslot ↦ sound.meets hcall s more hslot,
    fun outcome hcall ↦ sound.right hcall⟩

/-- What was completed, if the call was. -/
def completion? (course : Course) : Option Completion :=
  match course.call with
  | .ended (.ok (.completed completion)) => some completion
  | _ => none

theorem call_of_completion? {course : Course} {completion : Completion}
    (h : course.completion? = some completion) :
    course.call = .ended (.ok (.completed completion)) := by
  unfold completion? at h
  split at h
  · rename_i hcall
    rw [hcall, Option.some.inj h]
  · cases h

/-- A world where a request to perform the action gets a given reply, and a client workflow a given
plan. -/
def answering (reply : Except BackendFault PerformResult) (plan : Plan (Except SessionFault Unit)) :
    (query : Query) → query.Answer
  | .call (.perform ..) => reply
  | .call _ => .error (.transport "no answer")
  | .confirm _ | .edit _ => true
  | .collect .. => none
  | .penalize .. => .finish false
  | .run .. => plan

/-- A workflow sends twice at once, of which the first fails, then once more, and then its plan
sends again. -/
theorem action_performed_once_of_four_sends :
    let s : Session := ⟨.alice, default, [], ["notify"], false, false⟩
    let action : Action := ⟨"approve_post", none, some "notify", none, false, none⟩
    let state : Session.State := ⟨(Store.empty.insert (.plain 1 none)).store, [], []⟩
    let plan : Plan (Except SessionFault Unit) := .send ∅ fun _ ↦ .finish (.ok ())
    let down := answering (.error (.transport "no answer")) plan
    let up := answering (.ok ⟨true, none, none, none, some [1], none, none⟩) plan
    let course := run s 1 action (start s 1 action ∅ state)
      [.send ∅ ∅, .send ∅ ∅, .reply 0 down, .send ∅ ∅, .reply 2 up, .answer up]
    (∃ completion, course.call = .ended (.ok (.completed completion)) ∧
        course.scene.log.grants = [completion.result]) ∧
      course.scene.log.results.map (fun | .ok _ => "" | .error fault => fault.message) =
        ["the action on reviewable 1 was already sent", "request failed: no answer", "",
          "the action on reviewable 1 was already sent"] := by
  intro s action state plan down up course
  have hsome : course.completion?.isSome = true := by decide +kernel
  obtain ⟨completion, hcompletion⟩ := Option.isSome_iff_exists.mp hsome
  have hcall := call_of_completion? hcompletion
  obtain ⟨-, -, -, -, hright⟩ := action_performed_at_most_once s 1 action ∅ state
    [.send ∅ ∅, .send ∅ ∅, .reply 0 down, .send ∅ ∅, .reply 2 up, .answer up]
  exact ⟨⟨completion, hcall, (hright _ hcall).completed completion rfl⟩, by decide +kernel⟩

end Course

end Moderation
