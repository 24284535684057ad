import Moderation.Proofs.Session.Amid

/-!
# Actions that no workflow sends

All that can come of claiming a topic, of sending an action and of performing one, step by step:
what was read when something was asked, and how the state is in the end.
-/

namespace Moderation

/-- A user may act on a reviewable that lies in no topic or that is the user's. -/
def Reviewable.IsOpenTo (r : Reviewable) (user : UserId) : Prop :=
  r.topic = none ∨ r.isClaimedBy user = true

/-- A claim is a user's own or that of another. -/
theorem Reviewable.isSome_claimOfOther? (r : Reviewable) (user : UserId) :
    (r.claimOfOther? user).isSome = (r.claim.isSome && !r.isClaimedBy user) := by
  unfold claimOfOther? isClaimedBy
  cases r.claim <;> simp [bne]

namespace Session

open Moderation.Task

variable {α : Type} {id : ReviewableId}

/-- The state after a failure was reported: what the backend has instead is taken over. -/
def State.reported (state : State) (fault : BackendFault) : State :=
  match fault with
  | .versionConflict message (some current) =>
    (state.revised (state.store.refresh current)).noted (.failure message)
  | fault => state.noted (.failure fault.message)

/-- What the claiming of a topic comes to. -/
inductive Claiming (s : Session) (id : ReviewableId) (before : State) :
    Bool → State → List Exchange → Prop where
  | untracked (missing : before.store.get? id = none) : Claiming s id before false before []
  | entitled {r : Reviewable} (found : before.store.get? id = some r)
    (openTo : r.IsOpenTo s.actor.id) : Claiming s id before true before []
  | held {r : Reviewable} {topic : TopicId} (found : before.store.get? id = some r)
    (inTopic : r.topic = some topic) (other : (r.claimOfOther? s.actor.id).isSome = true) :
    Claiming s id before false before []
  | granted {r : Reviewable} {topic : TopicId} {claim : Claim} {resumed : State} {mine : Bool}
    (found : before.store.get? id = some r) (inTopic : r.topic = some topic)
    (unclaimed : r.claim = none) (owner : (claim.user.id == s.actor.id) = mine) :
    Claiming s id before mine
      (resumed.revised (resumed.store.setTopicClaim topic (some claim)))
      [⟨.call (.claim topic true), .ok claim, before, resumed⟩]
  | outrun {r : Reviewable} {topic : TopicId} {message : String} {resumed : State}
    (found : before.store.get? id = some r) (inTopic : r.topic = some topic)
    (unclaimed : r.claim = none) :
    Claiming s id before false resumed
      [⟨.call (.claim topic true), .error (.claimConflict message), before, resumed⟩]
  | failed {r : Reviewable} {topic : TopicId} {fault : BackendFault} {resumed : State}
    (found : before.store.get? id = some r) (inTopic : r.topic = some topic)
    (unclaimed : r.claim = none) (other : ∀ message, fault ≠ .claimConflict message) :
    Claiming s id before false (resumed.noted (.failure fault.message))
      [⟨.call (.claim topic true), .error fault, before, resumed⟩]

theorem brings_ensureClaimed (s : Session) (id : ReviewableId) (before : State) :
    (s.ensureClaimed id).Brings before (s.Claiming id before) := by
  apply brings_lookUp
  cases hfound : before.store.get? id with
  | none => exact brings_pure (.untracked hfound)
  | some r =>
    dsimp only
    cases htopic : r.topic with
    | none => exact brings_pure (.entitled hfound (.inl htopic))
    | some topic =>
      dsimp only
      split
      · rename_i hown
        exact brings_pure (.entitled hfound (.inr hown))
      · rename_i hown
        split
        · rename_i hother
          exact brings_pure (.held hfound htopic hother)
        · rename_i hother
          have hfree : r.claim = none := by
            simpa [r.isSome_claimOfOther?, hown] using hother
          refine brings_call fun reply resumed ↦ ?_
          cases reply with
          | ok claim => exact brings_onStore (brings_pure (.granted hfound htopic hfree rfl))
          | error fault => cases fault with
            | claimConflict message => exact brings_pure (.outrun hfound htopic hfree)
            | versionConflict | rejected | transport | undecodable =>
              exact brings_note (brings_pure (.failed hfound htopic hfree (by simp)))

theorem brings_reportFailure (fault : BackendFault) (before : State)
    {Q : α → State → List Exchange → Prop} {rest : Unit → Task α}
    (h : (rest ()).Brings (before.reported fault) Q) :
    (reportFailure fault >>= rest).Brings before Q := by
  cases fault with
  | versionConflict message current => cases current <;> exact h
  | claimConflict | rejected | transport | undecodable => exact h

theorem brings_reload (id : ReviewableId) (before : State) :
    (reload id).Brings before fun _ _ xs ↦ ∀ x ∈ xs, x.query = .call (.fetch id) := by
  refine brings_call fun reply resumed ↦ ?_
  cases reply with
  | ok r => exact brings_onStore (brings_pure (by simp))
  | error fault => exact brings_note (brings_pure (by simp))

/-- What becomes of the reviewable is at most fetched. -/
theorem brings_applyResult (id : ReviewableId) (action : Action) (result : PerformResult)
    (before : State) :
    (applyResult id action result).Brings before
      fun _ _ xs ↦ ∀ x ∈ xs, x.query = .call (.fetch id) := by
  obtain ⟨success, status, version, reviewable, removed, count, unseen⟩ := result
  unfold applyResult
  apply brings_onStore
  cases action.completion <;> cases reviewable <;> cases removed
  all_goals
    repeat first
      | exact brings_pure (by simp)
      | exact brings_map (brings_reload id _)
      | apply brings_note
      | apply brings_onStore

/-- The request for an action, with the version and the payload of a copy. -/
def requestFor (s : Session) (id : ReviewableId) (action : Action) (extra : Fields)
    (r : Reviewable) : Request :=
  .perform id action.name r.version (Payload.build r extra (s.config.parametersOf r.kind))

/-- What the sending of an action comes to. -/
inductive Sending (s : Session) (id : ReviewableId) (action : Action) (extra : Fields)
    (before : State) : Except SessionFault Completion → State → List Exchange → Prop where
  | untracked (missing : before.store.get? id = none) :
    Sending s id action extra before (.error (.unknownReviewable id)) before []
  | refused {r : Reviewable} {fault : BackendFault} {resumed : State}
    (found : before.store.get? id = some r) :
    Sending s id action extra before (.error (.backend fault)) (resumed.reported fault)
      [⟨.call (s.requestFor id action extra r), .error fault, before, resumed⟩]
  | performed {r : Reviewable} {result : PerformResult} {completion : Completion}
    {resumed after : State} {xs : List Exchange} (found : before.store.get? id = some r)
    (fetches : ∀ x ∈ xs, x.query = .call (.fetch id)) :
    Sending s id action extra before (.ok completion) after
      (⟨.call (s.requestFor id action extra r), .ok result, before, resumed⟩ :: xs)

theorem brings_send (s : Session) (id : ReviewableId) (action : Action) (extra : Fields)
    (before : State) :
    (s.send id action extra).Brings before (s.Sending id action extra before) := by
  refine brings_withCopy .untracked fun r hfound ↦ brings_call fun reply resumed ↦ ?_
  cases reply with
  | ok result =>
    exact brings_map ((brings_applyResult id action result resumed).mono
      fun _ _ _ hfetches ↦ .performed hfound hfetches)
  | error fault => exact brings_reportFailure fault resumed (brings_pure (.refused hfound))

/-- What becomes of an action that no workflow sends, once the moderator has no more to say. -/
inductive Confirming (s : Session) (id : ReviewableId) (action : Action) (extra : Fields)
    (before : State) : Except SessionFault Outcome → State → List Exchange → Prop where
  | refused {after : State} {xs : List Exchange} (claiming : s.Claiming id before false after xs) :
    Confirming s id action extra before (.ok (.aborted .claimRefused)) after xs
  | sent {mid after : State} {result : Except SessionFault Completion} {xs ys : List Exchange}
    (claiming : s.Claiming id before true mid xs)
    (sending : s.Sending id action extra mid result after ys) :
    Confirming s id action extra before (result.map .completed) after (xs ++ ys)

variable {action : Action} {workflows : String → Option Workflow}

theorem brings_performConfirmed (s : Session) (direct : action.workflow = none)
    (id : ReviewableId) (extra : Fields) (before : State) :
    (s.performConfirmed workflows id action extra).Brings before
      (s.Confirming id action extra before) := by
  unfold performConfirmed
  simp only [workflowOf, direct]
  refine brings_bind (s.brings_ensureClaimed id before) fun claimed mid xs hclaiming ↦ ?_
  cases claimed with
  | false =>
    refine brings_pure ?_
    rw [List.append_nil]
    exact .refused hclaiming
  | true => exact brings_map ((s.brings_send id action extra mid).mono
      fun _ _ _ hsending ↦ .sent hclaiming hsending)

/-- What becomes of an action that no workflow sends, while its reviewable is marked. -/
inductive Performing (s : Session) (id : ReviewableId) (action : Action) (extra : Fields)
    (before : State) : Except SessionFault Outcome → State → List Exchange → Prop where
  | direct {result : Except SessionFault Outcome} {after : State} {xs : List Exchange}
    (confirming : s.Confirming id action extra before result after xs) :
    Performing s id action extra before result after xs
  | missingForm (form : String) :
    Performing s id action extra before (.error (.missingForm action.name form)) before []
  | refused {after : State} {xs : List Exchange} (claiming : s.Claiming id before false after xs) :
    Performing s id action extra before (.ok (.aborted .claimRefused)) after xs
  | dismissed {message : String} {mid resumed : State} {xs : List Exchange}
    (claiming : s.Claiming id before true mid xs) :
    Performing s id action extra before (.ok (.aborted .confirmationDismissed)) resumed
      (xs ++ [⟨.confirm message, false, mid, resumed⟩])
  | confirmed {message : String} {result : Except SessionFault Outcome} {mid resumed after : State}
    {xs ys : List Exchange} (claiming : s.Claiming id before true mid xs)
    (confirming : s.Confirming id action extra resumed result after ys) :
    Performing s id action extra before result after
      (xs ++ ⟨.confirm message, true, mid, resumed⟩ :: ys)
  | untracked {after : State} {xs : List Exchange} (claiming : s.Claiming id before true after xs)
    (missing : after.store.get? id = none) :
    Performing s id action extra before (.error (.unknownReviewable id)) after xs
  | closed {form : String} {r : Reviewable} {mid resumed : State} {xs : List Exchange}
    (claiming : s.Claiming id before true mid xs) :
    Performing s id action extra before (.ok (.aborted .formDismissed)) resumed
      (xs ++ [⟨.collect form r action, none, mid, resumed⟩])
  | filled {form : String} {r : Reviewable} {entered : Fields}
    {result : Except SessionFault Outcome} {mid resumed after : State} {xs ys : List Exchange}
    (claiming : s.Claiming id before true mid xs)
    (confirming : s.Confirming id action (extra.overlay entered) resumed result after ys) :
    Performing s id action extra before result after
      (xs ++ ⟨.collect form r action, some entered, mid, resumed⟩ :: ys)

variable {extra : Fields} {before : State}

theorem brings_performAsking (s : Session) (message : String) (direct : action.workflow = none) :
    (s.performAsking message workflows id action extra).Brings before
      (s.Performing id action extra before) := by
  refine brings_bind (s.brings_ensureClaimed id before) fun claimed mid xs hclaiming ↦ ?_
  cases claimed with
  | false =>
    refine brings_pure ?_
    rw [List.append_nil]
    exact .refused hclaiming
  | true =>
    refine brings_query fun confirmed resumed ↦ ?_
    cases confirmed with
    | true =>
      exact (s.brings_performConfirmed direct id extra resumed).mono
        fun _ _ _ hconfirming ↦ .confirmed hclaiming hconfirming
    | false => exact brings_pure (.dismissed hclaiming)

theorem brings_performFilling (s : Session) (form : String) (direct : action.workflow = none) :
    (s.performFilling form workflows id action extra).Brings before
      (s.Performing id action extra before) := by
  unfold performFilling
  split
  · refine brings_bind (s.brings_ensureClaimed id before) fun claimed mid xs hclaiming ↦ ?_
    cases claimed with
    | false =>
      refine brings_pure ?_
      rw [List.append_nil]
      exact .refused hclaiming
    | true =>
      refine brings_withCopy (fun hmissing ↦ ?_) fun r _ ↦ brings_query fun entered resumed ↦ ?_
      · rw [List.append_nil]
        exact .untracked hclaiming hmissing
      · cases entered with
        | some entered =>
          exact (s.brings_performConfirmed direct id _ resumed).mono
            fun _ _ _ hconfirming ↦ .filled hclaiming hconfirming
        | none => exact brings_pure (.closed hclaiming)
  · exact brings_pure (.missingForm form)

theorem brings_performMarked (s : Session) (direct : action.workflow = none) :
    (s.performMarked workflows id action extra).Brings before
      (s.Performing id action extra before) := by
  simp only [performMarked, workflowOf, direct]
  split
  · exact s.brings_performAsking _ direct
  · exact s.brings_performFilling _ direct
  · exact (s.brings_performConfirmed direct id extra before).mono fun _ _ _ h ↦ .direct h

end Session

end Moderation
