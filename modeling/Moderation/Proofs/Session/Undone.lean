import Moderation.Proofs.Marker
import Moderation.Proofs.Session.Entitled

/-!
# Actions that were not done

A call that does not get its action done leaves the store of a session that is alone as it was, but
for what the backend said on the way: whose the topic is now, and which copy of a reviewable it has.
-/

namespace Moderation

namespace Exchange

/-- The claim that the backend granted, and on which topic. -/
def granted? : Exchange → Option (TopicId × Claim)
  | ⟨.call (.claim topic _), .ok claim, _, _⟩ => some (topic, claim)
  | _ => none

/-- What the backend has instead of the version that an action was sent with. -/
def conflict? : Exchange → Option Reviewable
  | ⟨.call (.perform ..), .error (.versionConflict _ current), _, _⟩ => current
  | _ => none

/-- The others do nothing while the task waits. -/
def Quiet (x : Exchange) : Prop := x.resumed = x.asked

theorem Quiet.keepsTopics {x : Exchange} (h : x.Quiet) : x.KeepsTopics := by
  rw [KeepsTopics, h]
  exact x.asked.keepsTopics_refl

end Exchange

/-- The reviewable after a claim was granted, if one was. -/
def Reviewable.withGrant (r : Reviewable) : Option (TopicId × Claim) → Reviewable
  | some (topic, claim) => r.withTopicClaim topic (some claim)
  | none => r

namespace Store

variable {s before after : Store} {id : ReviewableId}

/-- The store after a claim was granted, if one was. -/
def grant (s : Store) : Option (TopicId × Claim) → Store
  | some (topic, claim) => (s.setTopicClaim topic (some claim)).store
  | none => s

/-- The store after a copy was taken over, if there was one. -/
def replace (s : Store) : Option Reviewable → Store
  | some current => (s.refresh current).store
  | none => s

theorem get?_grant (s : Store) (claim : Option (TopicId × Claim)) (id : ReviewableId) :
    (s.grant claim).get? id = (s.get? id).map (·.withGrant claim) := by
  cases claim with
  | none => exact Option.map_id'.symm
  | some claim => exact get?_setTopicClaim s claim.1 (some claim.2) id

/-- What is looked up after a grant and a copy depends on what was looked up before. -/
theorem get?_replace_grant_congr {t : Store} (h : ∀ id, s.get? id = t.get? id)
    (claim : Option (TopicId × Claim)) (copy : Option Reviewable) (id : ReviewableId) :
    ((s.grant claim).replace copy).get? id = ((t.grant claim).replace copy).get? id := by
  cases copy with
  | none => exact (get?_grant s claim id).trans ((h id).symm ▸ (get?_grant t claim id).symm)
  | some current => simp only [replace, get?_refresh, get?_grant, h]

/-- What the two stores have in common: the numbers, what is there, and what is marked. -/
structure Alike (before after : Store) : Prop where
  counts : after.counts = before.counts
  marker? : ∀ id, after.marker? id = before.marker? id

theorem Alike.trans {first second third : Store} (h : Alike first second)
    (h' : Alike second third) : Alike first third where
  counts := h'.counts.trans h.counts
  marker? id := (h'.marker? id).trans (h.marker? id)

theorem alike_grant (s : Store) (claim : Option (TopicId × Claim)) : s.Alike (s.grant claim) := by
  cases claim with
  | none => exact ⟨rfl, fun _ ↦ rfl⟩
  | some claim => exact ⟨rfl, marker?_setTopicClaim s claim.1 (some claim.2)⟩

theorem alike_replace (s : Store) (copy : Option Reviewable) : s.Alike (s.replace copy) := by
  cases copy with
  | none => exact ⟨rfl, fun _ ↦ rfl⟩
  | some current => exact ⟨counts_refresh s current, marker?_refresh s current⟩

/-- Once the marker is taken off again, the stores are alike that were alike while it was set. -/
theorem Alike.endUpdate {marked left : Store} (h : marked.Alike left)
    (hbegin : s.beginUpdate id = .ok marked) : s.Alike (left.endUpdate id) where
  counts := h.counts.trans (counts_beginUpdate hbegin)
  marker? other := by
    have hfree : s.marker? id = some false := by
      by_contra hset
      obtain ⟨fault, hfault⟩ := beginUpdate_refused_iff.mpr hset
      simp [hbegin] at hfault
    rw [marker?_endUpdate, h.marker?, marker?_beginUpdate hbegin]
    split
    · rename_i hid
      rw [← hid, hfree]
      rfl
    · rfl

theorem contains_eq_isSome_marker? (s : Store) (id : ReviewableId) :
    s.contains id = (s.marker? id).isSome := by
  rw [marker?, Option.isSome_map, Std.ExtTreeMap.isSome_getElem?_eq_contains]
  rfl

/-- What is left of a store by a call that does not get its action done: everything as it was, but
for the claim that was granted and for the copy that the backend has of something. -/
structure LeavesAlone (before after : Store) (claim : Option (TopicId × Claim))
    (copy : Option Reviewable) : Prop where
  counts : after.counts = before.counts
  contains : ∀ id, after.contains id = before.contains id
  isUpdating : ∀ id, after.isUpdating id = before.isUpdating id
  replaced : ∀ current, copy = some current → before.contains current.id = true →
    ∃ r, after.get? current.id = some r ∧ r.same current = true
  others : ∀ id, (∀ current, copy = some current → current.id ≠ id) →
    after.get? id = (before.get? id).map (·.withGrant claim)

/-- Only the copies are left to look at. -/
theorem Alike.leavesAlone {claim : Option (TopicId × Claim)} {copy : Option Reviewable}
    (h : before.Alike after)
    (get? : ∀ id, after.get? id = ((before.grant claim).replace copy).get? id) :
    before.LeavesAlone after claim copy where
  counts := h.counts
  contains id := by rw [contains_eq_isSome_marker?, contains_eq_isSome_marker?, h.marker?]
  isUpdating id := by rw [isUpdating_eq, isUpdating_eq, h.marker?]
  replaced := by
    rintro current rfl htracked
    rw [contains_eq_isSome_get?, Option.isSome_iff_exists] at htracked
    obtain ⟨old, hold⟩ := htracked
    rw [get?]
    exact get?_refresh_self (by rw [get?_grant, hold, Option.map_some])
  others id hother := by
    rw [get?, ← get?_grant]
    cases copy with
    | none => rfl
    | some current => exact (get?_refresh _ current id).trans (if_neg (hother current rfl))

end Store

namespace Session

open Moderation.Task

variable {s : Session} {id : ReviewableId} {action : Action} {extra : Fields} {before after : State}
  {xs ys : List Exchange}

/-- The exchanges of a call, one grant and one conflict at most, account for the store. -/
structure Accounts (xs : List Exchange) (before after : Store) (claim : Option (TopicId × Claim))
    (copy : Option Reviewable) : Prop where
  granted : xs.filterMap (·.granted?) = claim.toList
  conflict : xs.filterMap (·.conflict?) = copy.toList
  store : after = (before.grant claim).replace copy

variable {claim : Option (TopicId × Claim)} {copy : Option Reviewable}

/-- First a claim is granted, then a copy is taken over. -/
theorem Accounts.append {first second third : Store} (h : Accounts xs first second claim none)
    (later : Accounts ys second third none copy) : Accounts (xs ++ ys) first third claim copy where
  granted := by rw [List.filterMap_append, h.granted, later.granted, Option.toList_none,
    List.append_nil]
  conflict := by rw [List.filterMap_append, h.conflict, later.conflict, Option.toList_none,
    List.nil_append]
  store := later.store.trans (congrArg (Store.replace · copy) h.store)

/-- A question to the moderator grants nothing and brings no copy. -/
theorem Accounts.cons {x : Exchange} {first second : Store} (h : Accounts xs first second none copy)
    (granted : x.granted? = none) (conflict : x.conflict? = none) :
    Accounts (x :: xs) first second none copy where
  granted := (List.filterMap_cons_none granted).trans h.granted
  conflict := (List.filterMap_cons_none conflict).trans h.conflict
  store := h.store

theorem accounts_nil (store : Store) : Accounts [] store store none none := ⟨rfl, rfl, rfl⟩

/-- What is the moderator's already is not claimed again. -/
theorem Claiming.eq_of_isOpenTo {result : Bool} {r : Reviewable}
    (h : s.Claiming id before result after xs) (found : before.store.get? id = some r)
    (openTo : r.IsOpenTo s.actor.id) : after = before ∧ xs = [] := by
  have owned : ∀ {r' : Reviewable} {topic : TopicId}, before.store.get? id = some r' →
      r'.topic = some topic → r'.isClaimedBy s.actor.id = true := by
    intro r' topic found' inTopic
    obtain rfl := Option.some.inj (found.symm.trans found')
    exact openTo.resolve_left (by simp [inTopic])
  cases h with
  | entitled => exact ⟨rfl, rfl⟩
  | untracked missing => simp [missing] at found
  | held found' inTopic other =>
    simp [Reviewable.isSome_claimOfOther?, owned found' inTopic] at other
  | granted found' inTopic unclaimed | outrun found' inTopic unclaimed
    | failed found' inTopic unclaimed =>
    simpa [Reviewable.isClaimedBy, unclaimed] using owned found' inTopic

theorem Claiming.exists_isOpenTo (h : s.Claiming id before true after xs)
    (quiet : ∀ x ∈ xs, x.Quiet) :
    ∃ r, after.store.get? id = some r ∧ r.IsOpenTo s.actor.id := by
  have hopen := h.isOpenTo fun x hx ↦ (quiet x hx).keepsTopics
  suffices hfound : ∃ r, after.store.get? id = some r by
    obtain ⟨r, hget⟩ := hfound
    exact ⟨r, hget, hopen r hget⟩
  cases h with
  | entitled found => exact ⟨_, found⟩
  | @granted r topic claim resumed _ found =>
    obtain rfl : resumed = before := quiet _ List.mem_cons_self
    refine ⟨r.withTopicClaim topic (some claim), ?_⟩
    change (resumed.store.setTopicClaim topic (some claim)).store.get? id = _
    rw [Store.get?_setTopicClaim, found, Option.map_some]

theorem Claiming.accounts {result : Bool} (h : s.Claiming id before result after xs)
    (quiet : ∀ x ∈ xs, x.Quiet) : ∃ claim, Accounts xs before.store after.store claim none := by
  cases h with
  | untracked | entitled | held => exact ⟨none, accounts_nil before.store⟩
  | @granted _ topic claim resumed =>
    obtain rfl : resumed = before := quiet _ List.mem_cons_self
    exact ⟨some (topic, claim), rfl, rfl, rfl⟩
  | outrun =>
    obtain rfl : after = before := quiet _ List.mem_cons_self
    exact ⟨none, rfl, rfl, rfl⟩
  | @failed _ _ _ resumed =>
    obtain rfl : resumed = before := quiet _ List.mem_cons_self
    exact ⟨none, rfl, rfl, rfl⟩

/-! ## Performing -/

theorem Sending.accounts {fault : SessionFault}
    (h : s.Sending id action extra before (.error fault) after xs) (quiet : ∀ x ∈ xs, x.Quiet) :
    ∃ copy, Accounts xs before.store after.store none copy := by
  cases h with
  | untracked => exact ⟨none, accounts_nil before.store⟩
  | @refused _ fault resumed =>
    obtain rfl : resumed = before := quiet _ List.mem_cons_self
    cases fault with
    | versionConflict message current =>
      refine ⟨current, rfl, ?_, ?_⟩
      all_goals cases current <;> rfl
    | claimConflict | rejected | transport | undecodable => exact ⟨none, rfl, rfl, rfl⟩

/-- The action was not done, or it is not known that it was. -/
def Undone (result : Except SessionFault Outcome) : Prop :=
  ∀ completion, result ≠ .ok (.completed completion)

theorem error_of_undone {result : Except SessionFault Completion}
    (undone : Undone (result.map .completed)) : ∃ fault, result = .error fault := by
  cases result with
  | error fault => exact ⟨fault, rfl⟩
  | ok completion => exact absurd rfl (undone completion)

theorem Confirming.accounts {result : Except SessionFault Outcome}
    (h : s.Confirming id action extra before result after xs) (quiet : ∀ x ∈ xs, x.Quiet)
    (undone : Undone result) : ∃ claim copy, Accounts xs before.store after.store claim copy := by
  cases h with
  | refused claiming =>
    obtain ⟨claim, haccounts⟩ := claiming.accounts quiet
    exact ⟨claim, none, haccounts⟩
  | sent claiming sending =>
    obtain ⟨fault, rfl⟩ := error_of_undone undone
    obtain ⟨claim, hclaiming⟩ := claiming.accounts fun x hx ↦ quiet x (by simp [hx])
    obtain ⟨copy, hsending⟩ := sending.accounts fun x hx ↦ quiet x (by simp [hx])
    exact ⟨claim, copy, hclaiming.append hsending⟩

/-- After a claim only the sending is left. -/
theorem Confirming.accounts_of_claimed {result : Except SessionFault Outcome} {mid : State}
    (claiming : s.Claiming id before true mid xs) (claimed : ∀ x ∈ xs, x.Quiet)
    (h : s.Confirming id action extra mid result after ys) (quiet : ∀ x ∈ ys, x.Quiet)
    (undone : Undone result) : ∃ copy, Accounts ys mid.store after.store none copy := by
  obtain ⟨r, hfound, hopen⟩ := claiming.exists_isOpenTo claimed
  cases h with
  | refused again =>
    obtain ⟨rfl, rfl⟩ := again.eq_of_isOpenTo hfound hopen
    exact ⟨none, accounts_nil _⟩
  | sent again sending =>
    obtain ⟨rfl, rfl⟩ := again.eq_of_isOpenTo hfound hopen
    obtain ⟨fault, rfl⟩ := error_of_undone undone
    exact sending.accounts quiet

theorem Performing.accounts {result : Except SessionFault Outcome}
    (h : s.Performing id action extra before result after xs) (quiet : ∀ x ∈ xs, x.Quiet)
    (undone : Undone result) : ∃ claim copy, Accounts xs before.store after.store claim copy := by
  cases h with
  | direct confirming => exact confirming.accounts quiet undone
  | missingForm => exact ⟨none, none, accounts_nil before.store⟩
  | refused claiming | untracked claiming missing =>
    obtain ⟨claim, haccounts⟩ := claiming.accounts quiet
    exact ⟨claim, none, haccounts⟩
  | @dismissed _ mid _ _ claiming | @closed _ _ mid _ _ claiming =>
    obtain ⟨claim, haccounts⟩ := claiming.accounts fun x hx ↦ quiet x (by simp [hx])
    obtain rfl : after = mid := quiet _ (List.mem_append_right _ List.mem_cons_self)
    exact ⟨claim, none, haccounts.append ((accounts_nil after.store).cons rfl rfl)⟩
  | @confirmed _ _ mid resumed _ _ _ claiming confirming
    | @filled _ _ _ _ mid resumed _ _ _ claiming confirming =>
    have hclaimed := fun x hx ↦ quiet x (List.mem_append_left _ hx)
    have hlater := fun x hx ↦ quiet x (List.mem_append_right _ (List.mem_cons_of_mem _ hx))
    obtain rfl : resumed = mid := quiet _ (List.mem_append_right _ List.mem_cons_self)
    obtain ⟨claim, hclaiming⟩ := claiming.accounts hclaimed
    obtain ⟨copy, hconfirming⟩ := confirming.accounts_of_claimed claiming hclaimed hlater undone
    exact ⟨claim, copy, hclaiming.append (hconfirming.cons rfl rfl)⟩

theorem brings_perform_undone (direct : action.workflow = none) :
    (s.perform id action extra).Brings before fun result after xs ↦
      (∀ x ∈ xs, x.Quiet) → Undone result → ∃ claim copy,
        xs.filterMap (·.granted?) = claim.toList ∧ xs.filterMap (·.conflict?) = copy.toList ∧
          before.store.LeavesAlone after.store claim copy := by
  refine brings_withUpdate (fun fault _ _ _ ↦ ?_) fun store hbegin ↦ ?_
  · exact ⟨none, none, rfl, rfl, (before.store.alike_grant none).leavesAlone fun _ ↦ rfl⟩
  · refine (s.brings_performMarked direct).mono fun result after xs h quiet undone ↦ ?_
    obtain ⟨claim, copy, haccounts⟩ := h.accounts quiet undone
    refine ⟨claim, copy, haccounts.granted, haccounts.conflict, ?_⟩
    have halike : store.Alike after.store := by
      rw [haccounts.store]
      exact (store.alike_grant claim).trans (Store.alike_replace _ copy)
    refine (halike.endUpdate hbegin).leavesAlone fun other ↦ ?_
    rw [Store.get?_endUpdate, haccounts.store]
    exact Store.get?_replace_grant_congr (Store.get?_beginUpdate hbegin) claim copy other

/-- With nothing else running, a call that does not get its action done, one that no workflow sends,
leaves the store alone: the backend granted one claim at most and sent one copy along at most, and
nothing else is new. -/
theorem undone_leaves_store_alone (s : Session) (answers : Nat → (query : Query) → query.Answer)
    (state : State) (id : ReviewableId) (action : Action) (extra : Fields)
    (direct : action.workflow = none)
    (undone : Undone ((s.perform id action extra).undisturbed answers state).result) :
    let run := (s.perform id action extra).undisturbed answers state
    ∃ claim copy, run.exchanges.filterMap (·.granted?) = claim.toList ∧
      run.exchanges.filterMap (·.conflict?) = copy.toList ∧
      state.store.LeavesAlone run.state.store claim copy :=
  brings_perform_undone direct (fun n ↦ ⟨answers n, fun state ↦ state⟩)
    (exchanges_amid (fun _ _ _ ↦ rfl) _ state) undone

/-- Alice claims the topic, and is told that the backend has a newer version. -/
theorem undone_leaves_store_alone_of_conflict :
    let s : Session := ⟨.alice, default, [], [], false, false⟩
    let action : Action := { (default : Action) with name := "agree" }
    let current := { Reviewable.plain 1 (some 10) with version := 3 }
    let backend : (request : Request) → request.Reply
      | .claim _ automatic => .ok ⟨.alice, automatic⟩
      | _ => .error (.versionConflict "changed" (some current))
    let answers (_ : Nat) := Query.answerBy backend
    let state : State := { (default : State) with
      store := (Store.empty.replaceAll [.plain 1 (some 10), .plain 2 (some 10)]).store }
    let run := (s.perform 1 action ∅).undisturbed answers state
    Undone run.result ∧ (run.state.store.get? 2).map (·.claim) = some (some ⟨.alice, true⟩) ∧
      (∃ r, run.state.store.get? 1 = some r ∧ r.version = 3) ∧
      run.state.store.isUpdating 1 = false := by
  intro s action current backend answers state run
  have hundone : Undone run.result := by
    have hfailed : run.result.isOk = false := by decide +kernel
    intro completion hcompleted
    rw [hcompleted] at hfailed
    cases hfailed
  obtain ⟨claim, copy, hclaim, hcopy, hleaves⟩ :=
    s.undone_leaves_store_alone answers state 1 action ∅ rfl hundone
  obtain rfl : claim = some (10, ⟨.alice, true⟩) := by
    have hgranted : run.exchanges.filterMap (·.granted?) = [(10, ⟨.alice, true⟩)] := by
      decide +kernel
    rw [hclaim] at hgranted
    cases claim <;> simp_all
  obtain ⟨newer, rfl, hid, hversion⟩ : ∃ newer, copy = some newer ∧ newer.id = 1 ∧
      newer.version = 3 := by
    have hconflict : (run.exchanges.filterMap (·.conflict?)).map (fun r ↦ (r.id, r.version)) =
        [(1, 3)] := by decide +kernel
    rw [hcopy] at hconflict
    cases copy <;> simp_all
  obtain ⟨r, hget, hsame⟩ := hleaves.replaced newer rfl (by rw [hid]; decide +kernel)
  have hother : run.state.store.get? 2 = _ := hleaves.others 2 fun other hcopied ↦ by
    obtain rfl := Option.some.inj hcopied
    rw [hid]
    decide
  have hheld : (state.store.get? 2).map (·.topic) = some (some 10) := by decide +kernel
  refine ⟨hundone, ?_, ⟨r, hid ▸ hget, ?_⟩, (hleaves.isUpdating 1).trans (by decide +kernel)⟩
  · obtain ⟨old, hold, htopic⟩ := Option.map_eq_some_iff.mp hheld
    rw [hother, hold]
    simp [Reviewable.withGrant, Reviewable.claim_withTopicClaim, htopic]
  · have hsameVersion : r.version = newer.version := by
      by_contra hdiffers
      simp [Reviewable.same, hdiffers] at hsame
    rw [hsameVersion, hversion]

end Session

end Moderation
