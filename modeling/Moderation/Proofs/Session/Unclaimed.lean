import Moderation.Proofs.Session.Undone

/-!
# Claims that come to nothing

A session that is to have the topic of a reviewable claimed may have to say that it is not. It knew
so from its copy, the backend did not grant the claim, or the claim that the backend has on the
topic is another's. In the last case the store shows that claim from then on, and in all others it
is what it was. The moderator hears of a failure, unless it is that somebody was faster.
-/

namespace Moderation

/-- A notice to the moderator that something went wrong. -/
def Note.failure? : Note → Option String
  | failure message => some message
  | _ => none

/-- Changes of the store are no such notices. -/
theorem Note.filterMap_failure?_changes (changes : List StoreChange) :
    (changes.map change).filterMap (·.failure?) = [] := by
  rw [List.filterMap_map, List.filterMap_eq_nil_iff]
  exact fun _ _ ↦ rfl

/-- What the moderator is to hear of a fault: nothing if somebody was faster. -/
def BackendFault.notice? : BackendFault → Option String
  | claimConflict _ => none
  | fault => some fault.message

theorem BackendFault.notice?_of_other {fault : BackendFault}
    (other : ∀ message, fault ≠ claimConflict message) : fault.notice? = some fault.message := by
  cases fault with
  | claimConflict message => exact absurd rfl (other message)
  | versionConflict | rejected | transport | undecodable => rfl

/-- What the moderator is to hear of a request to the backend. -/
def Exchange.notice? : Exchange → Option String
  | ⟨.call _, .error fault, _, _⟩ => fault.notice?
  | _ => none

/-- What is free shows a claim that is written for its topic. -/
theorem Store.setTopicClaim_ne {store : Store} {id : ReviewableId} {r : Reviewable}
    {topic : TopicId} (found : store.get? id = some r) (inTopic : r.topic = some topic)
    (unclaimed : r.claim = none) (claim : Claim) :
    (store.setTopicClaim topic (some claim)).store ≠ store := by
  intro hsame
  have hcopy : r = r.withTopicClaim topic (some claim) := by
    have hget := store.get?_setTopicClaim topic (some claim) id
    rw [hsame, found, Option.map_some] at hget
    exact Option.some.inj hget
  have hclaim := r.claim_withTopicClaim topic (some claim)
  rw [← hcopy, if_pos inTopic, unclaimed] at hclaim
  cases hclaim

namespace Session

open Moderation.Task

variable {s : Session} {id : ReviewableId} {before after : State} {xs : List Exchange}

/-- What is left by a claim that came to nothing: the store as it was, unless the backend answered
with another's claim, and the notices that are due. -/
structure Unclaimed (s : Session) (before after : State) (xs : List Exchange) : Prop where
  store_eq_iff : after.store = before.store ↔ ∀ x ∈ xs, x.granted? = none
  granted : ∀ x ∈ xs, ∀ topic claim, x.granted? = some (topic, claim) →
    claim.user.id ≠ s.actor.id ∧ after.store = (before.store.setTopicClaim topic (some claim)).store
  notices : ∃ notes, after.journal = before.journal ++ notes ∧
    notes.filterMap (·.failure?) = xs.filterMap (·.notice?)

/-- Nothing was granted, and the store is as it was. -/
theorem unclaimed_of_refused {notes : List Note} (store : after.store = before.store)
    (refused : ∀ x ∈ xs, x.granted? = none) (journal : after.journal = before.journal ++ notes)
    (heard : notes.filterMap (·.failure?) = xs.filterMap (·.notice?)) :
    s.Unclaimed before after xs where
  store_eq_iff := iff_of_true store refused
  granted x hx topic claim hgranted := by simp [refused x hx] at hgranted
  notices := ⟨notes, journal, heard⟩

theorem Claiming.unclaimed (h : s.Claiming id before false after xs)
    (quiet : ∀ x ∈ xs, x.Quiet) : s.Unclaimed before after xs := by
  cases h with
  | untracked | held => exact unclaimed_of_refused rfl (by simp) (List.append_nil _).symm rfl
  | outrun =>
    obtain rfl : after = before := quiet _ List.mem_cons_self
    exact unclaimed_of_refused rfl (by simp [Exchange.granted?]) (List.append_nil _).symm rfl
  | @failed _ _ _ resumed _ _ _ other =>
    obtain rfl : resumed = before := quiet _ List.mem_cons_self
    refine unclaimed_of_refused rfl (by simp [Exchange.granted?]) rfl ?_
    simp [Note.failure?, Exchange.notice?, BackendFault.notice?_of_other other]
  | @granted _ topic claim resumed _ found inTopic unclaimed owner =>
    obtain rfl : resumed = before := quiet _ List.mem_cons_self
    have changed := Store.setTopicClaim_ne found inTopic unclaimed claim
    refine ⟨iff_of_false changed (by simp [Exchange.granted?]), ?_, _, rfl,
      Note.filterMap_failure?_changes _⟩
    intro x hx topic' claim' hgranted
    obtain rfl := List.mem_singleton.mp hx
    obtain ⟨rfl, rfl⟩ := Prod.mk.inj (Option.some.inj hgranted)
    exact ⟨by simpa using owner, rfl⟩

/-- With nothing else running, a claim that comes to nothing leaves the store as it was, unless the
backend answered with another's claim; then that claim is all that is new. The moderator hears of
the request if it failed and it was not that somebody was faster, and of nothing else. -/
theorem unclaimed_leaves_store_alone_iff (s : Session)
    (answers : Nat → (query : Query) → query.Answer) (state : State) (id : ReviewableId)
    (unclaimed : ((s.ensureClaimed id).undisturbed answers state).result = false) :
    let run := (s.ensureClaimed id).undisturbed answers state
    s.Unclaimed state run.state run.exchanges := by
  have hclaiming := s.brings_ensureClaimed id state fun n ↦ ⟨answers n, fun state ↦ state⟩
  change ((s.ensureClaimed id).amid _ state).result = false at unclaimed
  rw [unclaimed] at hclaiming
  exact hclaiming.unclaimed (exchanges_amid (fun _ _ _ ↦ rfl) _ state)

/-- The backend is out of order: Alice is told so once, and her store is what it was. -/
theorem unclaimed_leaves_store_alone_of_failure :
    let s : Session := ⟨.alice, default, [], [], false, false⟩
    let answers (_ : Nat) := Query.answerBy fun _ ↦ .error (.rejected 500 "internal" "boom")
    let state : State := { (default : State) with
      store := (Store.empty.replaceAll [.plain 1 (some 10), .plain 2 (some 10)]).store }
    let run := (s.ensureClaimed 1).undisturbed answers state
    run.result = false ∧ run.state.store = state.store ∧ ∃ notes,
      run.state.journal = state.journal ++ notes ∧ notes.filterMap (·.failure?) = ["boom"] := by
  intro s answers state run
  have hunclaimed : run.result = false := by decide +kernel
  have hleft := s.unclaimed_leaves_store_alone_iff answers state 1 hunclaimed
  have hrefused : ∀ x ∈ run.exchanges, x.granted? = none := by decide +kernel
  have hheard : run.exchanges.filterMap (·.notice?) = ["boom"] := by decide +kernel
  refine ⟨hunclaimed, hleft.store_eq_iff.mpr hrefused, ?_⟩
  rw [← hheard]
  exact hleft.notices

/-- The backend says that the topic is Bob's. Alice's session denies her the topic, and shows two
reviewables as claimed that it showed as free. -/
theorem claim_of_other_is_shown :
    let s : Session := ⟨.alice, default, [], [], false, false⟩
    let backend : (request : Request) → request.Reply
      | .claim _ automatic => .ok ⟨.bob, automatic⟩
      | _ => .error (.transport "")
    let answers (_ : Nat) := Query.answerBy backend
    let state : State := { (default : State) with
      store := (Store.empty.replaceAll [.plain 1 (some 10), .plain 2 (some 10)]).store }
    let run := (s.ensureClaimed 1).undisturbed answers state
    run.result = false ∧ run.state.store ≠ state.store ∧
      (state.store.snapshot.map (·.claim) = [none, none]) ∧
      run.state.store.snapshot.map (·.claim) = [some ⟨.bob, true⟩, some ⟨.bob, true⟩] := by
  intro s backend answers state run
  have hbefore : state.store.snapshot.map (·.claim) = [none, none] := by decide +kernel
  have hafter : run.state.store.snapshot.map (·.claim) =
      [some ⟨.bob, true⟩, some ⟨.bob, true⟩] := by decide +kernel
  refine ⟨by decide +kernel, fun hsame ↦ ?_, hbefore, hafter⟩
  rw [hsame, hbefore] at hafter
  cases hafter

end Session

end Moderation
