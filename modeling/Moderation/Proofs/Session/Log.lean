import Mathlib.Data.List.Induction
import Moderation.Session.Perform

/-!
# The log of a call

What happens while an action is performed: what is asked and answered, and what becomes of
everything that is sent. How far the sending has come can be read off the log. The log is orderly if
nothing is sent any more once the backend performed the action, and if everybody who tries is told
so.
-/

namespace Moderation

/-- What a plan comes to, given what became of everything that it sends. -/
def Plan.outcome {α : Type} : Plan α → List (Except SessionFault Completion) → Option α
  | .finish result, [] => some result
  | .send _ next, result :: rest => (next result).outcome rest
  | _, _ => none

namespace Plan

variable (plan : Option (Plan (Except SessionFault Unit)))
  (told : List (Except SessionFault Completion))

/-- A client workflow, if one was started, returned normally. -/
def Done : Prop := ∀ p, plan = some p → p.outcome told = some (.ok ())

/-- A client workflow was started and returned a fault. -/
def Failed (fault : SessionFault) : Prop :=
  ∃ p, plan = some p ∧ p.outcome told = some (.error fault)

variable {plan told}

/-- A plan that failed is not done. -/
theorem Failed.not_done {fault : SessionFault} (failed : Failed plan told fault) :
    ¬ Done plan told := by
  obtain ⟨p, hplan, hfault⟩ := failed
  intro hdone
  simp [hdone p hplan] at hfault

end Plan

namespace Query

/-- The question is the request to perform an action. -/
def performs : Query → Bool
  | .call (.perform ..) => true
  | _ => false

theorem performs_iff {query : Query} : query.performs = true ↔
    ∃ id action version data, query = .call (.perform id action version data) := by
  constructor
  · intro h
    unfold performs at h
    split at h
    · exact ⟨_, _, _, _, rfl⟩
    · cases h
  · rintro ⟨_, _, _, _, rfl⟩
    rfl

/-- The question is one that only a send asks: for the action, or for what became of the
reviewable. -/
def sends : Query → Bool
  | .call (.perform ..) | .call (.fetch _) => true
  | _ => false

/-- A request for an action is part of a send. -/
theorem sends_of_performs {query : Query} (h : query.performs = true) : query.sends = true := by
  obtain ⟨id, action, version, data, rfl⟩ := performs_iff.mp h
  rfl

theorem performs_of_not_sends {query : Query} (h : query.sends = false) :
    query.performs = false := by
  rw [← Bool.not_eq_true]
  intro hperforms
  simp [sends_of_performs hperforms] at h

/-- The question hands the right to send out. -/
def handsOut : Query → Bool
  | .penalize .. | .run .. => true
  | _ => false

/-- Nothing of a send hands the action out. -/
theorem handsOut_of_sends {query : Query} (h : query.sends = true) : query.handsOut = false := by
  unfold sends at h
  split at h
  · rfl
  · rfl
  · cases h

end Query

/-- What a send may come to once the backend performed the action: it came too late, or it is the
one that succeeded. -/
def PerformResult.Leaves (performed : PerformResult) (r : Except SessionFault Completion) : Prop :=
  (∃ id, r = .error (.alreadyDispatched id)) ∨
    ∃ completion, r = .ok completion ∧ completion.result = performed

inductive Happening where
  | asked (query : Query)
  | answered (query : Query) (answer : query.Answer)
  /-- A plan is told what became of something that it sent. -/
  | told (result : Except SessionFault Completion)
  /-- Something that was sent beside the plan came to its end. -/
  | ended (result : Except SessionFault Completion)

namespace Happening

/-- The backend performed the action, with this result. -/
def granted? : Happening → Option PerformResult
  | answered (.call (.perform ..)) (.ok result) => some result
  | _ => none

/-- A request to perform the action is sent or answered. -/
def performs : Happening → Bool
  | asked query | answered query _ => query.performs
  | _ => false

def handsOut : Happening → Bool
  | asked query => query.handsOut
  | _ => false

/-- The plan that a client workflow came up with. -/
def plan? : Happening → Option (Plan (Except SessionFault Unit))
  | answered (.run ..) plan => some plan
  | _ => none

theorem plan?_answered {query : Query} (handsOut : query.handsOut = false)
    (answer : query.Answer) : (answered query answer).plan? = none := by
  cases query with
  | run => cases handsOut
  | call | confirm | collect | edit | penalize => rfl

def told? : Happening → Option (Except SessionFault Completion)
  | told result => some result
  | _ => none

/-- What became of something that was sent. -/
def result? : Happening → Option (Except SessionFault Completion)
  | told result | ended result => some result
  | _ => none

/-- May happen after the backend performed the action: nothing is sent, and what a send comes to is
what the backend left for it. -/
structure Follows (result : PerformResult) (h : Happening) : Prop where
  silent : h.performs = false
  leaves : ∀ r, h.result? = some r → result.Leaves r

end Happening

/-- How far the sending has come. -/
inductive Stage where
  | unsent
  /-- Every request was refused. -/
  | failed
  | underWay
  /-- The backend performed the action. -/
  | landed (result : PerformResult)

namespace Stage

/-- Nothing more may be sent for now. -/
def isTaken : Stage → Bool
  | unsent | failed => false
  | underWay | landed _ => true

def after (stage : Stage) : Happening → Stage
  | .asked (.call (.perform ..)) => underWay
  | .answered (.call (.perform ..)) (.ok result) => landed result
  | .answered (.call (.perform ..)) (.error _) => failed
  | _ => stage

/-- What performs nothing does not change the stage. -/
theorem after_of_silent {h : Happening} (silent : h.performs = false) (stage : Stage) :
    stage.after h = stage := by
  unfold after
  split
  · cases silent
  · cases silent
  · cases silent
  · rfl

theorem after_ne_unsent {h : Happening} (loud : h.performs = true) (stage : Stage) :
    stage.after h ≠ unsent := by
  cases h with
  | told | ended => cases loud
  | asked query =>
    obtain ⟨id, action, version, data, rfl⟩ := Query.performs_iff.mp loud
    simp [after]
  | answered query answer =>
    obtain ⟨id, action, version, data, rfl⟩ := Query.performs_iff.mp loud
    cases answer <;> simp [after]

/-- A result makes the action land, at whichever stage. -/
theorem after_of_granted {h : Happening} {result : PerformResult}
    (granted : h.granted? = some result) (stage : Stage) : stage.after h = landed result := by
  unfold Happening.granted? at granted
  split at granted
  · obtain rfl := Option.some.inj granted
    rfl
  · cases granted

/-- An action lands by a result, or has landed before. -/
theorem granted_of_after {h : Happening} {stage : Stage} {result : PerformResult}
    (landed : stage.after h = landed result) :
    h.granted? = some result ∨ stage = .landed result := by
  unfold after at landed
  split at landed
  · cases landed
  · obtain rfl := Stage.landed.inj landed
    exact .inl rfl
  · cases landed
  · exact .inr landed

end Stage

abbrev Log := List Happening

namespace Log

variable {log : Log} {h : Happening} {result : PerformResult}

def stage (log : Log) : Stage := log.foldl Stage.after .unsent

/-- The right to send was handed out. -/
def isShared (log : Log) : Bool := log.any (·.handsOut)

def plan? (log : Log) : Option (Plan (Except SessionFault Unit)) := log.findSome? (·.plan?)

/-- What the plan was told, in order. -/
def told (log : Log) : List (Except SessionFault Completion) := log.filterMap (·.told?)

/-- What became of everything that was sent with the right that was handed out. -/
def results (log : Log) : List (Except SessionFault Completion) := log.filterMap (·.result?)

def grants (log : Log) : List PerformResult := log.filterMap (·.granted?)

/-- Nothing is sent after the backend performed the action. -/
def Orderly (log : Log) : Prop :=
  log.Pairwise fun earlier later ↦ ∀ result, earlier.granted? = some result → later.Follows result

theorem isShared_append (more : Log) (shared : log.isShared = true) :
    isShared (log ++ more) = true := by
  rw [isShared, List.any_append, Bool.or_eq_true]
  exact .inl shared

theorem stage_append_singleton (log : Log) (h : Happening) :
    stage (log ++ [h]) = log.stage.after h := List.foldl_append ..

/-- A stage outlasts everything that performs nothing. -/
theorem stage_append_of_silent {more : Log} (silent : ∀ h ∈ more, h.performs = false) :
    stage (log ++ more) = log.stage := by
  induction more generalizing log with
  | nil => rw [List.append_nil]
  | cons h rest ih =>
    rw [List.append_cons, ih fun h hmem ↦ silent h (List.mem_cons_of_mem _ hmem),
      stage_append_singleton, Stage.after_of_silent (silent h List.mem_cons_self)]

/-- Unsent means that nothing was performed. -/
theorem stage_eq_unsent_iff : log.stage = .unsent ↔ ∀ h ∈ log, h.performs = false := by
  induction log using List.reverseRecOn with
  | nil => simp [stage]
  | append_singleton log h ih =>
    rw [stage_append_singleton]
    cases hperforms : h.performs with
    | true =>
      refine iff_of_false (Stage.after_ne_unsent hperforms _) fun hsilent ↦ ?_
      simpa [hperforms] using hsilent h (by simp)
    | false => simp [Stage.after_of_silent hperforms, ih, hperforms, or_imp, forall_and]

/-- What has landed was granted. -/
theorem mem_grants_of_stage (landed : log.stage = .landed result) : result ∈ log.grants := by
  induction log using List.reverseRecOn with
  | nil => cases landed
  | append_singleton log h ih =>
    rw [stage_append_singleton] at landed
    rw [grants, List.filterMap_append, List.mem_append]
    rcases Stage.granted_of_after landed with hgranted | hbefore
    · exact .inr (by simp [hgranted])
    · exact .inl (ih hbefore)

theorem Orderly.of_append {more : Log} (orderly : Orderly (log ++ more)) : log.Orderly :=
  (List.pairwise_append.mp orderly).1

/-- Once the backend performed the action, that is how far the sending has come. -/
theorem Orderly.stage_eq (orderly : log.Orderly) (hmem : h ∈ log)
    (granted : h.granted? = some result) : log.stage = .landed result := by
  induction log using List.reverseRecOn with
  | nil => cases hmem
  | append_singleton log last ih =>
    rw [stage_append_singleton]
    rcases List.mem_append.mp hmem with hbefore | hlast
    · have hfollows : last.Follows result :=
        (List.pairwise_append.mp orderly).2.2 h hbefore last (List.mem_singleton_self _) _ granted
      rw [Stage.after_of_silent hfollows.silent]
      exact ih orderly.of_append hbefore
    · obtain rfl := List.mem_singleton.mp hlast
      exact Stage.after_of_granted granted _

/-- In an orderly log what was granted is what has landed. -/
theorem Orderly.mem_grants_iff (orderly : log.Orderly) :
    result ∈ log.grants ↔ log.stage = .landed result := by
  refine ⟨fun hmem ↦ ?_, mem_grants_of_stage⟩
  obtain ⟨h, hlog, hgranted⟩ := List.mem_filterMap.mp hmem
  exact orderly.stage_eq hlog hgranted

/-- The backend performs the action once. -/
theorem Orderly.grants_length_le (orderly : log.Orderly) : log.grants.length ≤ 1 := by
  unfold grants
  induction orderly with
  | nil => simp
  | @cons h rest hrest _ ih =>
    cases hgranted : h.granted? with
    | none => simpa [hgranted] using ih
    | some result =>
      have hnone : rest.filterMap (·.granted?) = [] := by
        rw [List.filterMap_eq_nil_iff]
        intro later hlater
        have hsilent := (hrest later hlater result hgranted).silent
        unfold Happening.granted?
        split
        · cases hsilent
        · rfl
      simp [hgranted, hnone]

/-- Orderly logs make an orderly log if what comes later follows the result. -/
theorem Orderly.append {more : Log} (orderly : log.Orderly) (more_orderly : Orderly more)
    (follows : ∀ h ∈ more, ∀ result, log.stage = .landed result → h.Follows result) :
    Orderly (log ++ more) :=
  List.pairwise_append.mpr ⟨orderly, more_orderly, fun _ hearlier h hmem result hgranted ↦
    follows h hmem result (orderly.stage_eq hearlier hgranted)⟩

theorem orderly_singleton (h : Happening) : Orderly [h] := List.pairwise_singleton ..

theorem Orderly.append_singleton (orderly : log.Orderly)
    (follows : ∀ result, log.stage = .landed result → h.Follows result) : Orderly (log ++ [h]) :=
  orderly.append (orderly_singleton h) (by simpa using follows)

end Log

end Moderation
