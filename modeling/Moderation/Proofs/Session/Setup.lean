import Moderation.Proofs.Config.Saved
import Moderation.Proofs.Session.Amid
import Moderation.Proofs.Specimen

/-!
# What a session is set up without

An action may name a client workflow that is not registered, and may need a form that there is
none of. Both are found out before anything else is done. From then on a fault of this kind can only
be one that a client workflow of the moderator's own gives back.
-/

namespace Moderation

/-- The session is set up without something that an operation needs. -/
inductive SessionFault.IsSetup : SessionFault → Prop
  | unregisteredWorkflow (name : String) : IsSetup (.unregisteredWorkflow name)
  | missingForm (action form : String) : IsSetup (.missingForm action form)

/-- The client workflow may come to its end with the fault. -/
inductive Plan.Gives (fault : SessionFault) : Plan (Except SessionFault Unit) → Prop
  | finish : Gives fault (.finish (.error fault))
  | send {more : Fields} {next : Except SessionFault Completion → Plan (Except SessionFault Unit)}
      (result : Except SessionFault Completion) (later : (next result).Gives fault) :
      Gives fault (.send more next)

/-- A client workflow was started that may give back the fault. -/
def Exchange.Gives (fault : SessionFault) : Exchange → Prop
  | ⟨.run .., plan, _, _⟩ => Plan.Gives fault plan
  | _ => False

/-- The run ends with a fault, and no client workflow was there to give it back. -/
structure Passage.Reports {α : Type} (run : Passage (Except SessionFault α))
    (fault : SessionFault) : Prop where
  result : run.result = .error fault
  own : ∀ x ∈ run.exchanges, ¬ x.Gives fault

namespace Task

variable {α β : Type} {fault : SessionFault}

/-- A fault of the setup only comes out of the task if a client workflow gave it back. -/
def PassesOn (task : Task (Except SessionFault α)) : Prop :=
  ∀ before, task.Brings before fun result _ xs ↦ ∀ fault, result = .error fault → fault.IsSetup →
    ∃ x ∈ xs, x.Gives fault

/-- A task that passes faults on reports no lack of setup by itself. -/
theorem PassesOn.not_reports {task : Task (Except SessionFault α)} (h : task.PassesOn)
    (others : Nat → Interlude) (before : Session.State) (setup : fault.IsSetup) :
    ¬ (task.amid others before).Reports fault := by
  intro hreports
  obtain ⟨x, hx, hgives⟩ := h before others fault hreports.result setup
  exact hreports.own x hx hgives

theorem passesOn_ok (a : α) : (pure (.ok a) : Task (Except SessionFault α)).PassesOn :=
  fun _ ↦ brings_pure fun _ herror ↦ nomatch herror

/-- A fault that is no lack of setup may be the outcome. -/
theorem passesOn_error (other : ¬ fault.IsSetup) :
    (pure (.error fault) : Task (Except SessionFault α)).PassesOn := by
  intro before
  apply brings_pure
  rintro _ herror hsetup
  obtain rfl := Except.error.inj herror
  exact absurd hsetup other

/-- What comes before the last part does not matter. -/
theorem passesOn_bind {first : Task β} {rest : β → Task (Except SessionFault α)}
    (h : ∀ b, (rest b).PassesOn) : (first >>= rest).PassesOn := by
  intro before others
  rw [amid_bind]
  intro fault hfault hsetup
  obtain ⟨x, hx, hgives⟩ := h _ _ _ fault hfault hsetup
  exact ⟨x, List.mem_append_right _ hx, hgives⟩

/-- A part that may fail, with the fault of which the task then ends. -/
theorem PassesOn.bind {first : Task (Except SessionFault β)}
    {rest : Except SessionFault β → Task (Except SessionFault α)} (h : first.PassesOn)
    (succeeded : ∀ b, (rest (.ok b)).PassesOn)
    (failed : ∀ fault before,
      (rest (.error fault)).Brings before fun result _ _ ↦ result = .error fault) :
    (first >>= rest).PassesOn := by
  intro before
  refine brings_bind (h before) fun result mid xs hxs others fault hfault hsetup ↦ ?_
  cases result with
  | ok b =>
    obtain ⟨x, hx, hgives⟩ := succeeded b mid others fault hfault hsetup
    exact ⟨x, List.mem_append_right _ hx, hgives⟩
  | error own =>
    obtain rfl : own = fault := Except.error.inj ((failed own mid others).symm.trans hfault)
    obtain ⟨x, hx, hgives⟩ := hxs own rfl hsetup
    exact ⟨x, List.mem_append_left _ hx, hgives⟩

theorem PassesOn.map {task : Task (Except SessionFault β)} (h : task.PassesOn) (f : β → α) :
    (task >>= fun result ↦ pure (result.map f)).PassesOn :=
  h.bind (fun b ↦ passesOn_ok (f b)) fun _ _ _ ↦ rfl

/-- That a reviewable is not tracked is no lack of setup. -/
theorem passesOn_withCopy {id : ReviewableId} {body : Reviewable → Task (Except SessionFault α)}
    (h : ∀ r, (body r).PassesOn) : (withCopy id body).PassesOn := by
  apply passesOn_bind
  intro copy
  cases copy with
  | some r => exact h r
  | none => exact passesOn_error nofun

/-- Nor is it that an action is under way already. -/
theorem passesOn_withUpdate {id : ReviewableId} {body : Task (Except SessionFault α)}
    (h : body.PassesOn) : (withUpdate id body).PassesOn := by
  intro before
  apply brings_withUpdate
  · intro refusal hrefusal fault herror hsetup
    obtain rfl := Except.error.inj herror
    unfold Store.beginUpdate at hrefusal
    split at hrefusal
    · obtain rfl := Except.error.inj hrefusal
      cases hsetup
    · split at hrefusal
      · obtain rfl := Except.error.inj hrefusal
        cases hsetup
      · cases hrefusal
  · exact fun store _ ↦ h _

/-- What is marked for nothing is as it was. -/
theorem amid_withUpdate_pure {id : ReviewableId} {state : Session.State} {store : Store}
    (begun : state.store.beginUpdate id = .ok store) (result : Except SessionFault α)
    (others : Nat → Interlude) :
    (withUpdate id (pure result)).amid others state = ⟨result, state, []⟩ := by
  have hrun : (withUpdate id (pure result)).amid others state =
      ⟨result, { state with store := store.endUpdate id }, []⟩ := by
    simp only [withUpdate, amid, begun]
    rfl
  rw [hrun, Store.endUpdate_of_beginUpdate begun]

end Task

namespace Session

open Moderation.Task

variable {workflows : String → Option Workflow} {id : ReviewableId} {action : Action}
  {extra : Fields}

/-- A send fails for what the backend answers, and for a missing copy. -/
theorem passesOn_send (s : Session) (id : ReviewableId) (action : Action) (extra : Fields) :
    (s.send id action extra).PassesOn := by
  apply passesOn_withCopy
  intro r
  apply passesOn_bind
  intro reply
  cases reply with
  | ok result => exact passesOn_bind fun completion ↦ passesOn_ok completion
  | error fault => exact passesOn_bind fun _ ↦ passesOn_error nofun

theorem passesOn_dispatch (s : Session) (p : Pending) (more : Fields) :
    (s.dispatch p more).PassesOn := by
  apply passesOn_bind
  intro taken
  cases taken with
  | true => exact passesOn_error nofun
  | false =>
    apply (s.passesOn_send p.id p.action _).bind
    · exact fun completion ↦ passesOn_bind fun _ ↦ passesOn_ok completion
    · exact fun _ _ _ ↦ rfl

/-- A client workflow ends with a fault that it may give back. -/
theorem brings_carryOut (s : Session) (p : Pending) (plan : Plan (Except SessionFault Unit))
    (before : State) :
    (s.carryOut p plan).Brings before fun result _ _ ↦
      ∀ fault, result = .error fault → plan.Gives fault := by
  induction plan generalizing before with
  | finish result =>
    apply brings_pure
    rintro fault rfl
    exact .finish
  | send more next ih =>
    have hany : (s.dispatch p more).Brings before fun _ _ _ ↦ True := fun _ ↦ trivial
    unfold carryOut
    refine brings_bind hany fun result mid _ _ ↦ brings_note ?_
    exact (ih result _).mono fun _ _ _ h fault hfault ↦ .send result (h fault hfault)

/-- A workflow may report what it likes, as a client gave it. -/
theorem passesOn_run (s : Session) (name : String) (r : Reviewable) (p : Pending) :
    (Task.query (.run name r p.action) >>= s.carryOut p).PassesOn := by
  intro before
  refine brings_query fun plan resumed ↦ ?_
  exact (s.brings_carryOut p plan resumed).mono fun _ _ _ hgives fault hfault _ ↦
    ⟨_, List.mem_cons_self, hgives fault hfault⟩

theorem passesOn_runWorkflow (s : Session) (workflow : Workflow) (r : Reviewable) (p : Pending) :
    (s.runWorkflow workflow r p).PassesOn := by
  cases workflow with
  | penalty kind => exact passesOn_bind fun _ ↦ passesOn_ok ()
  | edit =>
    apply passesOn_bind
    intro editable
    cases editable with
    | true => exact (s.passesOn_dispatch p ∅).map _
    | false => exact passesOn_ok ()
  | custom name => exact s.passesOn_run name r p

theorem passesOn_performByWorkflow (s : Session) (workflow : Workflow) (id : ReviewableId)
    (action : Action) (extra : Fields) :
    (s.performByWorkflow workflow id action extra).PassesOn := by
  apply passesOn_withCopy
  intro r
  apply passesOn_bind
  intro p
  apply (s.passesOn_runWorkflow workflow r p).bind
  · intro _
    apply passesOn_bind
    intro completion
    cases completion <;> exact passesOn_ok _
  · exact fun _ _ _ ↦ rfl

/-- The second lookup of the workflow finds what the first found. -/
theorem passesOn_performConfirmed (s : Session) {workflow : Option Workflow}
    (found : workflowOf workflows action = .ok workflow) (id : ReviewableId) (extra : Fields) :
    (s.performConfirmed workflows id action extra).PassesOn := by
  apply passesOn_bind
  intro claimed
  cases claimed with
  | false => exact passesOn_ok _
  | true =>
    simp only [found, if_true]
    cases workflow with
    | none => exact (s.passesOn_send id action extra).map _
    | some workflow => exact s.passesOn_performByWorkflow workflow id action extra

/-- With a workflow that is found, or with none, only the workflow may report a lack. -/
theorem passesOn_performAsking (s : Session) {workflow : Option Workflow}
    (found : workflowOf workflows action = .ok workflow) (message : String) (id : ReviewableId)
    (extra : Fields) : (s.performAsking message workflows id action extra).PassesOn := by
  apply passesOn_bind
  intro claimed
  cases claimed with
  | false => exact passesOn_ok _
  | true =>
    apply passesOn_bind
    intro confirmed
    cases confirmed with
    | false => exact passesOn_ok _
    | true => exact s.passesOn_performConfirmed found id extra

/-- The form is known, so it is not missing either. -/
theorem passesOn_performFilling (s : Session) {workflow : Option Workflow}
    (found : workflowOf workflows action = .ok workflow) {form : String} (known : form ∈ s.forms)
    (id : ReviewableId) (extra : Fields) :
    (s.performFilling form workflows id action extra).PassesOn := by
  unfold performFilling
  rw [if_pos (List.contains_iff_mem.mpr known)]
  apply passesOn_bind
  intro claimed
  cases claimed with
  | false => exact passesOn_ok _
  | true =>
    apply passesOn_withCopy
    intro r
    apply passesOn_bind
    intro entered
    cases entered with
    | none => exact passesOn_ok _
    | some entered => exact s.passesOn_performConfirmed found id _

/-- What a session lacks for an action, the client workflow before the form. -/
def lacks? (s : Session) (workflows : String → Option Workflow) (action : Action) :
    Option SessionFault :=
  match workflowOf workflows action with
  | .error fault => some fault
  | .ok _ => match action.confirmation, s.formOf? action with
    | none, some form =>
      if form ∈ s.forms then none else some (.missingForm action.name form)
    | _, _ => none

/-- What is lacking is reported before anything is asked. -/
theorem performMarked_of_lacks (s : Session) {fault : SessionFault}
    (lacking : s.lacks? workflows action = some fault) (id : ReviewableId) (extra : Fields) :
    s.performMarked workflows id action extra = pure (.error fault) := by
  unfold lacks? at lacking
  unfold performMarked
  cases hworkflow : workflowOf workflows action with
  | error own =>
    obtain rfl : own = fault := by simpa [hworkflow] using lacking
    rfl
  | ok workflow => cases hconfirmation : action.confirmation with
    | some message => simp [hworkflow, hconfirmation] at lacking
    | none => cases hform : s.formOf? action with
      | none => simp [hworkflow, hconfirmation, hform] at lacking
      | some form =>
        obtain ⟨hmissing, rfl⟩ : form ∉ s.forms ∧ .missingForm action.name form = fault := by
          simpa [hworkflow, hconfirmation, hform] using lacking
        exact if_neg (by simpa using hmissing)

/-- With nothing lacking no lack of setup is reported but by a workflow. -/
theorem passesOn_performMarked (s : Session) (complete : s.lacks? workflows action = none)
    (id : ReviewableId) (extra : Fields) :
    (s.performMarked workflows id action extra).PassesOn := by
  unfold lacks? at complete
  unfold performMarked
  cases hworkflow : workflowOf workflows action with
  | error own => simp [hworkflow] at complete
  | ok workflow => cases hconfirmation : action.confirmation with
    | some message => exact s.passesOn_performAsking hworkflow message id extra
    | none => cases hform : s.formOf? action with
      | none => exact s.passesOn_performConfirmed hworkflow id extra
      | some form =>
        have hknown : form ∈ s.forms := by
          simpa [hworkflow, hconfirmation, hform] using complete
        exact s.passesOn_performFilling hworkflow hknown id extra

/-- The workflow of an action is not found if it has one by a name that nobody registered. -/
theorem workflowOf_eq_error_iff {fault : SessionFault} :
    workflowOf workflows action = .error fault ↔
      ∃ name, action.workflow = some name ∧ workflows name = none ∧
        fault = .unregisteredWorkflow name := by
  unfold workflowOf
  cases action.workflow with
  | none => simp
  | some name => cases hname : workflows name <;> simp [hname, eq_comm]

theorem exists_workflowOf_iff :
    (∃ workflow, workflowOf workflows action = .ok workflow) ↔
      ∀ name, action.workflow = some name → workflows name ≠ none := by
  unfold workflowOf
  cases action.workflow with
  | none => simp
  | some name => cases hname : workflows name <;> simp [hname]

/-- A workflow is lacking whatever the forms are. -/
theorem lacks?_eq_unregisteredWorkflow_iff {s : Session} {name : String} :
    s.lacks? workflows action = some (.unregisteredWorkflow name) ↔
      action.workflow = some name ∧ workflows name = none := by
  have hsame : workflowOf workflows action = .error (.unregisteredWorkflow name) ↔
      action.workflow = some name ∧ workflows name = none := by
    rw [workflowOf_eq_error_iff]
    constructor
    · rintro ⟨_, hworkflow, hnone, ⟨⟩⟩
      exact ⟨hworkflow, hnone⟩
    · exact fun ⟨hworkflow, hnone⟩ ↦ ⟨name, hworkflow, hnone, rfl⟩
  rw [← hsame]
  unfold lacks?
  cases workflowOf workflows action with
  | error fault => simp
  | ok workflow =>
    simp only [reduceCtorEq, iff_false]
    split
    · split <;> simp
    · simp

/-- A form is lacking only if the workflow is there and no confirmation comes instead. -/
theorem lacks?_eq_missingForm_iff {s : Session} {name form : String} :
    s.lacks? workflows action = some (.missingForm name form) ↔
      name = action.name ∧ (∃ workflow, workflowOf workflows action = .ok workflow) ∧
        action.confirmation = none ∧ s.formOf? action = some form ∧ form ∉ s.forms := by
  unfold lacks?
  cases hworkflow : workflowOf workflows action with
  | error fault =>
    obtain ⟨_, _, _, rfl⟩ := workflowOf_eq_error_iff.mp hworkflow
    simp
  | ok workflow => cases action.confirmation with
    | some message => simp
    | none => cases s.formOf? action with
      | none => simp
      | some known =>
        by_cases hknown : known ∈ s.forms
        · have hnone : ¬ (known = form ∧ form ∉ s.forms) := by
            rintro ⟨rfl, hmissing⟩
            exact hmissing hknown
          simpa [hknown] using fun _ ↦ hnone
        · constructor
          · intro hmissing
            obtain ⟨rfl, rfl⟩ : action.name = name ∧ known = form := by
              simpa [hknown] using hmissing
            exact ⟨rfl, ⟨workflow, rfl⟩, rfl, rfl, hknown⟩
          · rintro ⟨rfl, -, -, hform, -⟩
            obtain rfl := Option.some.inj hform
            exact if_neg hknown

/-! ## A session that was checked -/

/-- Only the built-in mappings may lack their forms. -/
theorem mem_forms_of_checked {s : Session} (checked : s.checked = .ok s) {name form : String}
    (mapped : s.config.formOf? name = some form) (own : Config.builtin.lookup name = none) :
    form ∈ s.forms := by
  have hnone : s.missingForm? = none := by
    unfold Session.checked at checked
    cases hmissing : s.missingForm? with
    | none => rfl
    | some mapping => simp [hmissing] at checked
  have hmem : (name, form) ∈ s.config.forms.toList :=
    Std.ExtTreeMap.mem_toList_iff_getElem?_eq_some.mpr mapped
  have hname : name ≠ Config.reviseAndRejectPost := Config.lookup_builtin_eq_none_iff.mp own
  simpa [Config.builtin, Ne.symm hname] using List.find?_eq_none.mp hnone _ hmem

/-- The form that an action needs is missing only where it is the form for a reason or built in. -/
theorem formOf?_missing_iff {s : Session} (made : s.config.IsMade) (checked : s.checked = .ok s)
    {form : String} :
    s.formOf? action = some form ∧ form ∉ s.forms ↔
      form ∉ s.forms ∧
        if action.needsReason then form = Config.rejectReasonForm
        else Config.builtin.lookup action.name = some form := by
  rw [and_comm]
  apply and_congr_right
  intro hmissing
  unfold formOf?
  cases action.needsReason with
  | true => simp [eq_comm]
  | false =>
    have hbuiltin {own : String} (h : Config.builtin.lookup action.name = some own) :
        s.config.formOf? action.name = some own := by
      by_cases hname : action.name = Config.reviseAndRejectPost
      · rw [hname] at h ⊢
        obtain rfl : Config.reviseAndRejectPost = own := Option.some.inj h
        exact made.isSound.builtin
      · rw [Config.lookup_builtin_eq_none_iff.mpr hname] at h
        cases h
    constructor
    · intro hform
      cases hlookup : Config.builtin.lookup action.name with
      | none => exact absurd (mem_forms_of_checked checked hform hlookup) hmissing
      | some own => exact (hbuiltin hlookup).symm.trans hform
    · exact hbuiltin

variable {others : Nat → Interlude} {state : State}

/-- With something lacking the call ends at once: nothing is asked, and the state is as it was. -/
theorem amid_performWith_of_lacks {s : Session} {fault : SessionFault}
    (tracked : state.store.contains id = true) (idle : state.store.isUpdating id = false)
    (lacking : s.lacks? workflows action = some fault) :
    (s.performWith workflows id action extra).amid others state = ⟨.error fault, state, []⟩ := by
  obtain ⟨store, hbegin⟩ := Store.exists_beginUpdate tracked idle
  unfold performWith
  rw [s.performMarked_of_lacks lacking]
  exact amid_withUpdate_pure hbegin _ others

/-- A lack of setup is reported if and only if something is lacking, namely that. -/
theorem reports_iff_lacks {s : Session} {fault : SessionFault}
    (tracked : state.store.contains id = true) (idle : state.store.isUpdating id = false)
    (setup : fault.IsSetup) :
    ((s.performWith workflows id action extra).amid others state).Reports fault ↔
      s.lacks? workflows action = some fault := by
  cases hlacks : s.lacks? workflows action with
  | none =>
    have hpasses : (s.performWith workflows id action extra).PassesOn :=
      passesOn_withUpdate (s.passesOn_performMarked hlacks id extra)
    simpa using hpasses.not_reports others state setup
  | some own =>
    rw [amid_performWith_of_lacks tracked idle hlacks]
    constructor
    · exact fun hreports ↦ congrArg some (Except.error.inj hreports.result)
    · rintro ⟨⟩
      exact ⟨rfl, by simp⟩

/-- An operation finds out that a client workflow or a form is missing before it does anything, and
not later. It asks nobody then and leaves everything as it was. A form can only be missing if it is
the form for a reason or that of a built-in mapping, and no confirmation stands in for it. What comes
after the claim, with the workflow looked up once more, finds nothing missing. -/
theorem setup_faults_come_first (s : Session) (workflows : String → Option Workflow)
    (others : Nat → Interlude) (state : State) (id : ReviewableId) (action : Action)
    (extra : Fields) (made : s.config.IsMade) (checked : s.checked = .ok s)
    (tracked : state.store.contains id = true) (idle : state.store.isUpdating id = false) :
    let run := (s.performWith workflows id action extra).amid others state
    (∀ name, run.Reports (.unregisteredWorkflow name) ↔
      action.workflow = some name ∧ workflows name = none) ∧
    (∀ name form, run.Reports (.missingForm name form) ↔
      name = action.name ∧ (∀ own, action.workflow = some own → workflows own ≠ none) ∧
      action.confirmation = none ∧ form ∉ s.forms ∧
      if action.needsReason then form = Config.rejectReasonForm
      else Config.builtin.lookup action.name = some form) ∧
    (∀ fault, fault.IsSetup → run.Reports fault → run.exchanges = [] ∧ run.state = state) ∧
    ∀ workflow, workflowOf workflows action = .ok workflow → ∀ later more fault, fault.IsSetup →
      ¬ ((s.performConfirmed workflows id action more).amid others later).Reports fault := by
  intro run
  refine ⟨?workflow, ?form, ?untouched, ?later⟩
  case workflow =>
    intro name
    rw [reports_iff_lacks tracked idle (.unregisteredWorkflow name),
      lacks?_eq_unregisteredWorkflow_iff]
  case form =>
    intro name form
    rw [reports_iff_lacks tracked idle (.missingForm name form), lacks?_eq_missingForm_iff,
      formOf?_missing_iff made checked, exists_workflowOf_iff]
  case untouched =>
    intro fault hsetup hreports
    have hlacks := (reports_iff_lacks tracked idle hsetup).mp hreports
    have hrun : run = ⟨.error fault, state, []⟩ := amid_performWith_of_lacks tracked idle hlacks
    rw [hrun]
    exact ⟨rfl, rfl⟩
  case later =>
    intro workflow hfound later more fault hsetup
    exact (s.passesOn_performConfirmed hfound id more).not_reports others later hsetup

/-- There is no form for the built-in mapping, and no workflow that tidies up. -/
theorem setup_faults_come_first_of_builtin_form :
    let s : Session := ⟨.alice, default, [], [], false, false⟩
    let action : Action := { (default : Action) with name := Config.reviseAndRejectPost }
    let tidied := { action with workflow := some "tidy" }
    let others (_ : Nat) : Interlude :=
      ⟨Query.answerBy fun _ ↦ .error (.transport ""), fun state ↦ state⟩
    let state : State := { (default : State) with
      store := (Store.empty.insert (.plain 1 (some 10))).store }
    let run (action : Action) := (s.performWith s.workflow? 1 action ∅).amid others state
    (run action).Reports (.missingForm Config.reviseAndRejectPost Config.reviseAndRejectPost) ∧
      (run tidied).Reports (.unregisteredWorkflow "tidy") ∧ (run tidied).exchanges = [] ∧
      (run tidied).state = state := by
  intro s action tidied others state run
  have made : s.config.IsMade := .registered [] rfl
  have tracked : state.store.contains 1 = true := by decide +kernel
  have idle : state.store.isUpdating 1 = false := by decide +kernel
  obtain ⟨-, hform, -⟩ :=
    s.setup_faults_come_first s.workflow? others state 1 action ∅ made rfl tracked idle
  obtain ⟨hworkflow, -, huntouched, -⟩ :=
    s.setup_faults_come_first s.workflow? others state 1 tidied ∅ made rfl tracked idle
  have htidied := (hworkflow "tidy").mpr ⟨rfl, rfl⟩
  have hmissing := (hform _ _).mpr ⟨rfl, nofun, rfl, by decide, rfl⟩
  exact ⟨hmissing, htidied, huntouched _ (.unregisteredWorkflow _) htidied⟩

end Session

end Moderation
