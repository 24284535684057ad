import Moderation.Proofs.Payload
import Moderation.Proofs.Session.Entitled

/-!
# What goes with an action

Every request for an action carries the payload of the session's copy, whichever way the action is
sent. What the caller gave lies over the attributes of the copy, what was entered in a form over
that, what a client workflow adds over both, and the registered fields over all of it.
-/

namespace Moderation

namespace Task

variable {α β : Type} {p : Exchange → Prop} {id : ReviewableId}

/-- Whatever is answered and whatever the others do, this holds of every question. -/
def AsksOnly (p : Exchange → Prop) (task : Task α) : Prop :=
  ∀ before, task.Brings before fun _ _ xs ↦ ∀ x ∈ xs, p x

theorem asksOnly_pure (a : α) : (pure a : Task α).AsksOnly p :=
  fun _ ↦ brings_pure (List.forall_mem_nil p)

/-- What a task asks is asked by its first part or by its second. -/
theorem AsksOnly.bind {task : Task α} {rest : α → Task β} (first : task.AsksOnly p)
    (second : ∀ a, (rest a).AsksOnly p) : (task >>= rest).AsksOnly p := by
  intro before
  refine brings_bind (first before) fun a mid xs hxs ↦ (second a mid).mono fun _ _ ys hys ↦ ?_
  exact List.forall_mem_append.mpr ⟨hxs, hys⟩

theorem AsksOnly.map {task : Task α} (h : task.AsksOnly p) (f : α → β) :
    (task >>= fun a ↦ pure (f a)).AsksOnly p :=
  h.bind fun a ↦ asksOnly_pure (f a)

/-- A step that asks nothing. -/
theorem asksOnly_sync {change : Session.State → Session.State} {next : Session.State → α} :
    (sync change fun state ↦ done (next state)).AsksOnly p :=
  fun _ _ ↦ List.forall_mem_nil p

theorem asksOnly_note (n : Note) : (note n).AsksOnly p := asksOnly_sync

theorem asksOnly_onStore (operation : Store → Store.Revision α) : (onStore operation).AsksOnly p :=
  asksOnly_sync

/-- Any answer may come, and in the meantime anything may happen. -/
theorem asksOnly_query {query : Query}
    (h : ∀ answer asked resumed, p ⟨query, answer, asked, resumed⟩) :
    (Task.query query).AsksOnly p :=
  fun before _ ↦ List.forall_mem_singleton.mpr (h _ before _)

theorem asksOnly_withCopy {body : Reviewable → Task (Except SessionFault α)}
    (h : ∀ r, (body r).AsksOnly p) : (withCopy id body).AsksOnly p :=
  fun before ↦ brings_withCopy (fun _ ↦ List.forall_mem_nil p) fun r _ ↦ h r before

end Task

/-- What was entered lies over what was given. -/
theorem Fields.getElem?_withEntered (extra : Fields) (xs : List Exchange) (name : String) :
    (extra.withEntered xs)[name]? =
      ((xs.findSome? (·.entered?)).bind (·[name]?)).or extra[name]? := by
  unfold withEntered
  cases xs.findSome? (·.entered?) with
  | none => simp
  | some entered => exact getElem?_overlay_eq extra entered name

namespace Exchange

/-- If the action was asked for, then with the payload of the copy that there was just then. Only a
client workflow adds to what was given. -/
def Bears (s : Session) (id : ReviewableId) (action : Action) (extra : Fields) (x : Exchange) :
    Prop :=
  x.query.performs = true → ∃ (r : Reviewable) (more : Fields), x.asked.store.get? id = some r ∧
    (action.workflow = none → more = ∅) ∧
    x.query = .call (s.requestFor id action (extra.overlay more) r)

/-- No form is filled in, and if the action was asked for, then with the payload of the copy. -/
def BearsUnasked (s : Session) (id : ReviewableId) (action : Action) (extra : Fields)
    (x : Exchange) : Prop :=
  x.entered? = none ∧ x.Bears s id action extra

end Exchange

namespace Session

open Moderation.Task

variable {s : Session} {id : ReviewableId} {action : Action} {extra more : Fields}
  {workflows : String → Option Workflow} {x : Exchange}

/-- What is no request for an action has no payload to bear. -/
theorem bears_of_not_performs (h : x.query.performs = false) : x.Bears s id action extra := by
  intro hperforms
  simp [h] at hperforms

theorem bearsUnasked_of_not_performs (h : x.query.performs = false ∧ x.entered? = none) :
    x.BearsUnasked s id action extra :=
  ⟨h.2, bears_of_not_performs h.1⟩

/-- A question that is neither a request for an action nor a form. -/
theorem asksOnly_other (query : Query) (performs : query.performs = false)
    (opens : ∀ answer asked resumed, Exchange.entered? ⟨query, answer, asked, resumed⟩ = none) :
    (Task.query query).AsksOnly (·.BearsUnasked s id action extra) :=
  asksOnly_query fun answer asked resumed ↦
    bearsUnasked_of_not_performs ⟨performs, opens answer asked resumed⟩

/-- To get a claim nothing is performed, and no form is shown. -/
theorem asksOnly_ensureClaimed (s : Session) (id : ReviewableId) (action : Action)
    (extra : Fields) : (s.ensureClaimed id).AsksOnly (·.BearsUnasked s id action extra) :=
  fun before ↦ (s.brings_ensureClaimed id before).mono
    fun _ _ _ hclaiming x hx ↦ bearsUnasked_of_not_performs (hclaiming.not_performs x hx)

/-- Between the reading of the copy and the request nobody else runs. -/
theorem Sending.bearsUnasked {before after : State} {result : Except SessionFault Completion}
    {xs : List Exchange} (h : s.Sending id action (extra.overlay more) before result after xs)
    (direct : action.workflow = none → more = ∅) : ∀ x ∈ xs, x.BearsUnasked s id action extra := by
  intro x hx
  refine ⟨h.entered x hx, fun hperforms ↦ ?_⟩
  cases h with
  | untracked => cases hx
  | refused found =>
    obtain rfl := List.mem_singleton.mp hx
    exact ⟨_, more, found, direct, rfl⟩
  | performed found fetches =>
    rcases List.mem_cons.mp hx with rfl | hfetch
    · exact ⟨_, more, found, direct, rfl⟩
    · rw [fetches x hfetch] at hperforms
      cases hperforms

/-- A send bears what the caller gave, and more only if there is a workflow. -/
theorem asksOnly_send (s : Session) (id : ReviewableId) (action : Action) (extra : Fields)
    (direct : action.workflow = none → more = ∅) :
    (s.send id action (extra.overlay more)).AsksOnly (·.BearsUnasked s id action extra) :=
  fun before ↦ (s.brings_send id action _ before).mono fun _ _ _ h ↦ h.bearsUnasked direct

section Workflows

variable {p : Pending}

/-- Only a workflow dispatches, so more fields may be sent. -/
theorem asksOnly_dispatch (s : Session) (routed : p.action.workflow ≠ none) (more : Fields) :
    (s.dispatch p more).AsksOnly (·.BearsUnasked s p.id p.action p.extra) := by
  have htake : p.take.AsksOnly (·.BearsUnasked s p.id p.action p.extra) := asksOnly_sync
  apply htake.bind
  intro taken
  cases taken with
  | true => exact asksOnly_pure _
  | false =>
    apply (s.asksOnly_send p.id p.action p.extra fun hnone ↦ absurd hnone routed).bind
    intro result
    cases result with
    | ok completion => exact AsksOnly.map asksOnly_sync _
    | error fault => exact AsksOnly.map asksOnly_sync _

/-- Whatever the plan adds to each of its sends. -/
theorem asksOnly_carryOut {α : Type} (s : Session) (routed : p.action.workflow ≠ none)
    (plan : Plan α) :
    (s.carryOut p plan).AsksOnly (·.BearsUnasked s p.id p.action p.extra) := by
  induction plan with
  | finish result => exact asksOnly_pure result
  | send more next ih =>
    apply (s.asksOnly_dispatch routed more).bind
    intro result
    exact (asksOnly_note _).bind fun _ ↦ ih result

theorem asksOnly_penalize (s : Session) (routed : p.action.workflow ≠ none) (kind : PenaltyKind)
    (r : Reviewable) :
    (s.penalize kind r p).AsksOnly (·.BearsUnasked s p.id p.action p.extra) := by
  unfold penalize
  cases r.author with
  | none => exact asksOnly_pure false
  | some user =>
    apply (asksOnly_other (.penalize kind user r) rfl fun _ _ _ ↦ rfl).bind
    exact s.asksOnly_carryOut routed

theorem asksOnly_release (s : Session) (r : Reviewable) :
    (s.release r).AsksOnly (·.BearsUnasked s id action extra) := by
  unfold release
  split
  · rename_i topic claim _ _
    split
    · apply (asksOnly_other (.call (.release topic true)) rfl fun _ _ _ ↦ rfl).bind
      intro reply
      cases reply with
      | ok done => exact (asksOnly_onStore _).map _
      | error fault => exact asksOnly_pure _
    · exact asksOnly_pure _
  · exact asksOnly_pure _

/-- The release after a penalty that was not given performs nothing. -/
theorem asksOnly_runPenalty (s : Session) (routed : p.action.workflow ≠ none) (kind : PenaltyKind)
    (r : Reviewable) :
    (s.runPenalty kind r p).AsksOnly (·.BearsUnasked s p.id p.action p.extra) := by
  unfold runPenalty
  split
  · apply (s.asksOnly_penalize routed kind r).bind
    intro penalized
    cases penalized with
    | true => exact asksOnly_pure ()
    | false =>
      apply (s.asksOnly_release r).bind
      intro released
      cases released with
      | ok sent => exact asksOnly_pure ()
      | error fault => exact asksOnly_note _
  · exact asksOnly_pure ()

theorem asksOnly_runEdit (s : Session) (routed : p.action.workflow ≠ none) (r : Reviewable) :
    (s.runEdit r p).AsksOnly (·.BearsUnasked s p.id p.action p.extra) := by
  apply (asksOnly_other (.edit r) rfl fun _ _ _ ↦ rfl).bind
  intro editable
  cases editable with
  | true => exact (s.asksOnly_dispatch routed ∅).map _
  | false => exact asksOnly_pure _

theorem asksOnly_runWorkflow (s : Session) (routed : p.action.workflow ≠ none)
    (workflow : Workflow) (r : Reviewable) :
    (s.runWorkflow workflow r p).AsksOnly (·.BearsUnasked s p.id p.action p.extra) := by
  cases workflow with
  | penalty kind => exact (s.asksOnly_runPenalty routed kind r).map _
  | edit => exact s.asksOnly_runEdit routed r
  | custom name =>
    apply (asksOnly_other (.run name r p.action) rfl fun _ _ _ ↦ rfl).bind
    exact s.asksOnly_carryOut routed

end Workflows

theorem asksOnly_performByWorkflow (s : Session) (routed : action.workflow ≠ none)
    (workflow : Workflow) (id : ReviewableId) (extra : Fields) :
    (s.performByWorkflow workflow id action extra).AsksOnly
      (·.BearsUnasked s id action extra) := by
  apply asksOnly_withCopy
  intro r before others
  -- The pending action is the one that was created just now.
  refine AsksOnly.bind (s.asksOnly_runWorkflow (p := ⟨_, id, action, extra⟩) routed workflow r)
    (fun result ↦ ?_) _ others
  cases result with
  | error fault => exact asksOnly_pure _
  | ok done =>
    have hcompletion (p : Pending) :
        p.completion.AsksOnly (·.BearsUnasked s id action extra) := asksOnly_sync
    apply (hcompletion _).bind
    intro completion
    cases completion <;> exact asksOnly_pure _

/-! ## Performing -/

/-- What was confirmed is sent directly if it has no workflow, without more fields. -/
theorem asksOnly_performConfirmed (s : Session) (workflows : String → Option Workflow)
    (id : ReviewableId) (action : Action) (extra : Fields) :
    (s.performConfirmed workflows id action extra).AsksOnly
      (·.BearsUnasked s id action extra) := by
  apply (s.asksOnly_ensureClaimed id action extra).bind
  intro claimed
  cases claimed with
  | false => exact asksOnly_pure _
  | true =>
    rw [if_pos rfl]
    unfold workflowOf
    cases hworkflow : action.workflow with
    | none =>
      have hsend := s.asksOnly_send id action extra fun _ ↦ rfl
      rw [Fields.overlay_empty] at hsend
      exact hsend.map _
    | some name => cases hfound : workflows name with
      | none => simpa [hfound] using asksOnly_pure _
      | some workflow =>
        simpa [hfound] using s.asksOnly_performByWorkflow (by simp [hworkflow]) workflow id extra

theorem asksOnly_performAsking (s : Session) (message : String)
    (workflows : String → Option Workflow) (id : ReviewableId) (action : Action) (extra : Fields) :
    (s.performAsking message workflows id action extra).AsksOnly
      (·.BearsUnasked s id action extra) := by
  apply (s.asksOnly_ensureClaimed id action extra).bind
  intro claimed
  cases claimed with
  | false => exact asksOnly_pure _
  | true =>
    apply (asksOnly_other (.confirm message) rfl fun _ _ _ ↦ rfl).bind
    intro confirmed
    cases confirmed with
    | false => exact asksOnly_pure _
    | true => exact s.asksOnly_performConfirmed workflows id action extra

/-- Before a form is filled in nothing is asked that it could matter for. -/
theorem brings_performFilling_bears (s : Session) (form : String) (before : State) :
    (s.performFilling form workflows id action extra).Brings before
      fun _ _ xs ↦ ∀ x ∈ xs, x.Bears s id action (extra.withEntered xs) := by
  unfold performFilling
  split
  · refine brings_bind (s.brings_ensureClaimed id before) fun claimed mid xs hclaiming ↦ ?_
    have hclaims : ∀ x ∈ xs, ∀ given, x.Bears s id action given :=
      fun x hx given ↦ bears_of_not_performs (hclaiming.not_performs x hx).1
    cases claimed with
    | false =>
      refine brings_pure fun x hx ↦ ?_
      rw [List.append_nil] at hx
      exact hclaims x hx _
    | true =>
      refine brings_withCopy (fun _ x hx ↦ ?_) fun r _ ↦ brings_query fun entered resumed ↦ ?_
      · rw [List.append_nil] at hx
        exact hclaims x hx _
      · cases entered with
        | none =>
          exact brings_pure (hclaiming.forall_append
            (fun x hx ↦ bears_of_not_performs hx.1) (bears_of_not_performs rfl) (by simp))
        | some entered =>
          refine (s.asksOnly_performConfirmed workflows id action _ resumed).mono
            fun _ _ ys hys ↦ ?_
          rw [withEntered_of_form (fun x hx ↦ (hclaiming.not_performs x hx).2) rfl]
          exact hclaiming.forall_append (fun x hx ↦ bears_of_not_performs hx.1)
            (bears_of_not_performs rfl) fun x hx ↦ (hys x hx).2
  · exact brings_pure (by simp)

/-- With a form the payload has what was entered, and without one nothing is entered. -/
theorem brings_performMarked_bears (s : Session) (before : State) :
    (s.performMarked workflows id action extra).Brings before
      fun _ _ xs ↦ ∀ x ∈ xs, x.Bears s id action (extra.withEntered xs) := by
  have hunasked {task : Task (Except SessionFault Outcome)}
      (h : task.AsksOnly (·.BearsUnasked s id action extra)) :
      task.Brings before fun _ _ xs ↦ ∀ x ∈ xs, x.Bears s id action (extra.withEntered xs) := by
    refine (h before).mono fun _ _ xs hxs x hx ↦ ?_
    rw [withEntered_of_none fun x hx ↦ (hxs x hx).1]
    exact (hxs x hx).2
  unfold performMarked
  split
  · exact hunasked (asksOnly_pure _)
  · split
    · exact hunasked (s.asksOnly_performAsking _ workflows id action extra)
    · exact s.brings_performFilling_bears _ before
    · exact hunasked (s.asksOnly_performConfirmed workflows id action extra)

/-- Every action that is performed bears its payload. -/
theorem brings_perform_bears (s : Session) (id : ReviewableId) (action : Action) (extra : Fields)
    (before : State) :
    (s.perform id action extra).Brings before
      fun _ _ xs ↦ ∀ x ∈ xs, x.Bears s id action (extra.withEntered xs) :=
  brings_withUpdate (by simp) fun store _ ↦ s.brings_performMarked_bears { before with store }

/-- Under each name a payload has what the uppermost layer has there: the registered field if its
value is true, what goes with the action, the attribute. A registered field that is not true neither
hides nor removes anything. What goes with an action that a session sends is in layers too: what a
client workflow adds, what was entered in the form, what the caller gave. -/
theorem payload_layers (s : Session) (others : Nat → Interlude) (state : State)
    (id : ReviewableId) (action : Action) (extra : Fields) :
    (∀ (r : Reviewable) (given : Fields) (registered : List String) (name : String),
      let payload := Payload.build r given registered
      (name ∈ payload ↔
        (name ∈ registered ∧ ∃ value, r.field? name = some value ∧ value.isTruthy = true) ∨
          name ∈ given ∨ (name = "send_email" ∧ r.sendEmail.isSome = true) ∨
          (name = "reject_reason" ∧ r.rejectReason.isSome = true)) ∧
      payload[name]? = (Payload.registered? r registered name).or
        (given[name]?.or (Payload.attribute? r name)) ∧
      ((∀ value, r.field? name = some value → value.isTruthy = false) →
        payload[name]? = (Payload.build r given [])[name]?)) ∧
    let run := (s.perform id action extra).amid others state
    ∀ x ∈ run.exchanges, ∀ own label version data,
      x.query = .call (.perform own label version data) →
      ∃ (r : Reviewable) (more : Fields), x.asked.store.get? id = some r ∧
        (action.workflow = none → more = ∅) ∧
        ∀ name, data[name]? = (Payload.registered? r (s.config.parametersOf r.kind) name).or
          (more[name]?.or (((run.exchanges.findSome? (·.entered?)).bind (·[name]?)).or
            (extra[name]?.or (Payload.attribute? r name)))) := by
  refine ⟨fun r given registered name ↦ ⟨?mem, ?value, ?falsy⟩, ?sent⟩
  case mem => exact Payload.mem_build_iff
  case value => exact Payload.getElem?_build r given registered name
  case falsy =>
    intro hfalsy
    rw [Payload.getElem?_build, Payload.getElem?_build, Payload.registered?_eq_none hfalsy,
      Payload.registered?_eq_none hfalsy]
  case sent =>
    intro run x hx own label version data hquery
    have hbears : x.Bears s id action (extra.withEntered run.exchanges) :=
      s.brings_perform_bears id action extra state others x hx
    obtain ⟨r, more, hcopy, hdirect, hrequest⟩ := hbears (by rw [hquery]; rfl)
    obtain ⟨-, -, -, rfl⟩ : own = id ∧ label = action.name ∧ version = r.version ∧
        data = Payload.build r ((extra.withEntered run.exchanges).overlay more)
          (s.config.parametersOf r.kind) := by
      simpa [hquery, requestFor] using hrequest
    refine ⟨r, more, hcopy, hdirect, fun name ↦ ?_⟩
    rw [Payload.getElem?_build, Fields.getElem?_overlay_eq, Fields.getElem?_withEntered,
      Option.or_assoc, Option.or_assoc]

/-- The moderator changes the text in the form, in vain, and the choice and the reason. -/
theorem payload_layers_of_filled_form :
    let config : Config := { (default : Config) with
      parameters := .ofList [("ReviewableFlaggedPost", ["raw", "send_email"])] }
    let s : Session := ⟨.alice, config, [Config.rejectReasonForm], [], false, false⟩
    let action : Action := { (default : Action) with name := "reject", needsReason := true }
    let members : List (String × Json) := [("raw", .string "mine"), ("send_email", .bool true),
      ("reject_reason", .string "spam")]
    let form := Fields.ofMembers members
    let answers : (query : Query) → query.Answer
      | .collect .. => some form
      | query => query.answerBy fun _ ↦ .error (.transport "")
    let others (_ : Nat) : Interlude := ⟨answers, fun state ↦ state⟩
    let r : Reviewable := { Reviewable.plain 1 none with
      raw := some "text", sendEmail := some false, rejectReason := some "rude" }
    let state : State := { (default : State) with store := (Store.empty.insert r).store }
    let run := (s.perform 1 action ∅).amid others state
    ∃ x ∈ run.exchanges, ∃ data, x.query = .call (.perform 1 "reject" 0 data) ∧
      data["raw"]? = some (.string "text") ∧ data["send_email"]? = some (.bool true) ∧
      data["reject_reason"]? = some (.string "spam") := by
  intro config s action members form answers others r state run
  have hentered : run.exchanges.findSome? (·.entered?) = some form := rfl
  have hlast : run.exchanges[1]?.map (fun x ↦ (x.query, x.asked.store.get? 1)) =
      some (.call (s.requestFor 1 action form r), some r) := rfl
  obtain ⟨x, hx, hfacts⟩ := Option.map_eq_some_iff.mp hlast
  obtain ⟨hquery, hcopy⟩ := Prod.mk.inj hfacts
  have hmem : x ∈ run.exchanges := List.mem_of_getElem? hx
  obtain ⟨-, hsent⟩ := s.payload_layers others state 1 action ∅
  obtain ⟨own, more, hown, hdirect, hdata⟩ := hsent x hmem _ _ _ _ hquery
  obtain rfl : r = own := Option.some.inj (hcopy.symm.trans hown)
  obtain rfl := hdirect rfl
  have hparameters : s.config.parametersOf r.kind = ["raw", "send_email"] := by decide +kernel
  have hform (name : String) (value : Json) (hmember : (name, value) ∈ members) :
      form[name]? = some value :=
    (Fields.getElem?_ofMembers_iff (by decide)).mpr hmember
  refine ⟨x, hmem, _, hquery, ?raw, ?email, ?reason⟩
  case raw =>
    rw [hdata, hparameters]
    simp [Payload.registered?, Reviewable.field?, r, Json.isTruthy]
  case email =>
    rw [hdata, hparameters, hentered]
    simp [Payload.registered?, Reviewable.field?, r, Option.filter, Json.isTruthy, hform, members]
  case reason =>
    rw [hdata, hparameters, hentered]
    simp [Payload.registered?, hform _ (.string "spam"), members]

end Session

end Moderation
