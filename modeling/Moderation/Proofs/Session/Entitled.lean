import Moderation.Proofs.Session.Direct
import Moderation.Proofs.Specimen

/-!
# Nothing is sent without the claim

Between two questions of a task nobody else runs, and the claim of a topic is looked at right before
an action is sent. So whatever the others do while a moderator makes up their mind, what is sent is
sent from a copy that is the moderator's, and with the version of that copy. A topic that a
reviewable lies in must stay the same, as it does.
-/

namespace Moderation

namespace Session.State

/-- Whatever both states have of a reviewable, it lies in the same topic. -/
def KeepsTopics (before after : State) : Prop :=
  ∀ (id : ReviewableId) (r r' : Reviewable), before.store.get? id = some r →
    after.store.get? id = some r' → r'.topic = r.topic

theorem keepsTopics_refl (state : State) : state.KeepsTopics state := by
  intro id r r' hget hget'
  obtain rfl := Option.some.inj (hget.symm.trans hget')
  rfl

/-- A newer copy that lies where the old one lay. -/
theorem keepsTopics_refresh (state : State) {copy : Reviewable}
    (same : ∀ old, state.store.get? copy.id = some old → copy.topic = old.topic) :
    state.KeepsTopics { state with store := (state.store.refresh copy).store } := by
  intro id r r' hget hget'
  rw [Store.get?_refresh, hget] at hget'
  split at hget'
  · rename_i hid
    obtain rfl : _ = r' := Option.some.inj hget'
    dsimp only
    split
    · rfl
    · exact same r (hid ▸ hget)
  · obtain rfl := Option.some.inj hget'
    rfl

end Session.State

namespace Exchange

def KeepsTopics (x : Exchange) : Prop := x.asked.KeepsTopics x.resumed

/-- What was entered in a form. -/
def entered? : Exchange → Option Fields
  | ⟨.collect .., entered, _, _⟩ => entered
  | _ => none

/-- If the action was asked for, then from a copy that the moderator may act on. -/
def IsEntitled (s : Session) (id : ReviewableId) (action : Action) (extra : Fields)
    (x : Exchange) : Prop :=
  x.query.performs = true → ∃ r, x.asked.store.get? id = some r ∧ r.IsOpenTo s.actor.id ∧
    x.query = .call (s.requestFor id action extra r)

end Exchange

theorem isEntitled_of_not_performs {s : Session} {id : ReviewableId} {action : Action}
    {extra : Fields} {x : Exchange} (h : x.query.performs = false) :
    x.IsEntitled s id action extra := by
  intro hperforms
  simp [h] at hperforms

/-- What goes with an action: what was given, and on top of it what was entered in a form. -/
def Fields.withEntered (extra : Fields) (xs : List Exchange) : Fields :=
  (xs.findSome? (·.entered?)).elim extra extra.overlay

theorem withEntered_of_none {extra : Fields} {xs : List Exchange}
    (h : ∀ x ∈ xs, x.entered? = none) : extra.withEntered xs = extra := by
  rw [Fields.withEntered, List.findSome?_eq_none_iff.mpr h]
  rfl

/-- The first form counts. -/
theorem withEntered_of_form {extra entered : Fields} {xs ys : List Exchange} {x : Exchange}
    (h : ∀ x ∈ xs, x.entered? = none) (form : x.entered? = some entered) :
    extra.withEntered (xs ++ x :: ys) = extra.overlay entered := by
  rw [Fields.withEntered, List.findSome?_append, List.findSome?_eq_none_iff.mpr h,
    List.findSome?_cons, form]
  rfl

namespace Session

open Moderation.Task

variable {s : Session} {id : ReviewableId} {action : Action} {extra : Fields} {before after : State}
  {xs : List Exchange}

/-- A topic is claimed only if the copy shows it as free. -/
theorem Claiming.requests {result : Bool} (h : s.Claiming id before result after xs) :
    ∀ x ∈ xs, ∃ r topic, x.asked.store.get? id = some r ∧ r.topic = some topic ∧
      r.claim = none ∧ x.query = .call (.claim topic true) := by
  cases h with
  | untracked | entitled | held => simp
  | granted found inTopic unclaimed | outrun found inTopic unclaimed
    | failed found inTopic unclaimed =>
    intro x hx
    obtain rfl := List.mem_singleton.mp hx
    exact ⟨_, _, found, inTopic, unclaimed, rfl⟩

theorem Claiming.not_performs {result : Bool} (h : s.Claiming id before result after xs) :
    ∀ x ∈ xs, x.query.performs = false ∧ x.entered? = none := by
  rintro ⟨query, answer, asked, resumed⟩ hx
  obtain ⟨r, topic, -, -, -, rfl⟩ := h.requests _ hx
  exact ⟨rfl, rfl⟩

/-- After a claim the copy is the moderator's, if there is one still. -/
theorem Claiming.isOpenTo (h : s.Claiming id before true after xs)
    (kept : ∀ x ∈ xs, x.KeepsTopics) :
    ∀ r, after.store.get? id = some r → r.IsOpenTo s.actor.id := by
  cases h with
  | entitled found openTo =>
    intro r hget
    obtain rfl := Option.some.inj (found.symm.trans hget)
    exact openTo
  | @granted copy topic claim resumed _ found inTopic unclaimed owner =>
    intro r hget
    change (resumed.store.setTopicClaim topic (some claim)).store.get? id = some r at hget
    rw [Store.get?_setTopicClaim, Option.map_eq_some_iff] at hget
    obtain ⟨current, hcurrent, rfl⟩ := hget
    have htopic : current.topic = some topic :=
      (kept _ List.mem_cons_self id copy current found hcurrent).trans inTopic
    right
    simp only [Reviewable.isClaimedBy, Reviewable.claim_withTopicClaim, htopic, if_true]
    exact owner

theorem Sending.isEntitled {result : Except SessionFault Completion}
    (h : s.Sending id action extra before result after xs)
    (openTo : ∀ r, before.store.get? id = some r → r.IsOpenTo s.actor.id) :
    ∀ x ∈ xs, x.IsEntitled s id action extra := by
  cases h with
  | untracked => simp
  | refused found =>
    intro x hx _
    obtain rfl := List.mem_singleton.mp hx
    exact ⟨_, found, openTo _ found, rfl⟩
  | performed found fetches =>
    intro x hx hperforms
    rcases List.mem_cons.mp hx with rfl | hfetch
    · exact ⟨_, found, openTo _ found, rfl⟩
    · rw [fetches x hfetch] at hperforms
      cases hperforms

theorem Sending.entered {result : Except SessionFault Completion}
    (h : s.Sending id action extra before result after xs) : ∀ x ∈ xs, x.entered? = none := by
  cases h with
  | untracked => simp
  | refused found =>
    intro x hx
    obtain rfl := List.mem_singleton.mp hx
    rfl
  | performed found fetches =>
    rintro ⟨query, answer, asked, resumed⟩ hx
    rcases List.mem_cons.mp hx with hfirst | hfetch
    · cases hfirst
      rfl
    · obtain rfl : query = _ := fetches _ hfetch
      rfl

/-- Between the claim and the request nobody else runs. -/
theorem Confirming.isEntitled {result : Except SessionFault Outcome}
    (h : s.Confirming id action extra before result after xs) (kept : ∀ x ∈ xs, x.KeepsTopics) :
    ∀ x ∈ xs, x.IsEntitled s id action extra := by
  cases h with
  | refused claiming => exact fun x hx ↦ isEntitled_of_not_performs (claiming.not_performs x hx).1
  | sent claiming sending =>
    intro x hx
    rcases List.mem_append.mp hx with hclaim | hsend
    · exact isEntitled_of_not_performs (claiming.not_performs x hclaim).1
    · exact sending.isEntitled
        (claiming.isOpenTo fun y hy ↦ kept y (List.mem_append_left _ hy)) x hsend

theorem Confirming.entered {result : Except SessionFault Outcome}
    (h : s.Confirming id action extra before result after xs) : ∀ x ∈ xs, x.entered? = none := by
  cases h with
  | refused claiming => exact fun x hx ↦ (claiming.not_performs x hx).2
  | sent claiming sending =>
    intro x hx
    exact (List.mem_append.mp hx).elim (fun h ↦ (claiming.not_performs x h).2) (sending.entered x)

/-- A claim and a question to the moderator come before a request, and are none. -/
theorem Claiming.forall_append {result : Bool} {p : Exchange → Prop} {y : Exchange}
    {ys : List Exchange} (h : s.Claiming id before result after xs)
    (claims : ∀ x, x.query.performs = false ∧ x.entered? = none → p x) (question : p y)
    (later : ∀ x ∈ ys, p x) : ∀ x ∈ xs ++ y :: ys, p x := by
  intro x hx
  rw [List.mem_append, List.mem_cons] at hx
  rcases hx with hclaim | rfl | hlater
  · exact claims x (h.not_performs x hclaim)
  · exact question
  · exact later x hlater

theorem Performing.isEntitled {result : Except SessionFault Outcome}
    (h : s.Performing id action extra before result after xs) (kept : ∀ x ∈ xs, x.KeepsTopics) :
    ∀ x ∈ xs, x.IsEntitled s id action (extra.withEntered xs) := by
  cases h with
  | direct confirming =>
    rw [withEntered_of_none confirming.entered]
    exact confirming.isEntitled kept
  | missingForm => simp
  | refused claiming | untracked claiming missing =>
    exact fun x hx ↦ isEntitled_of_not_performs (claiming.not_performs x hx).1
  | dismissed claiming | closed claiming =>
    exact claiming.forall_append (fun x hx ↦ isEntitled_of_not_performs hx.1)
      (isEntitled_of_not_performs rfl) (by simp)
  | confirmed claiming confirming =>
    rw [withEntered_of_none (claiming.forall_append (fun x hx ↦ hx.2) rfl confirming.entered)]
    exact claiming.forall_append (fun x hx ↦ isEntitled_of_not_performs hx.1)
      (isEntitled_of_not_performs rfl) (confirming.isEntitled fun x hx ↦ kept x (by simp [hx]))
  | filled claiming confirming =>
    rw [withEntered_of_form (fun x hx ↦ (claiming.not_performs x hx).2) rfl]
    exact claiming.forall_append (fun x hx ↦ isEntitled_of_not_performs hx.1)
      (isEntitled_of_not_performs rfl) (confirming.isEntitled fun x hx ↦ kept x (by simp [hx]))

theorem brings_perform_isEntitled (direct : action.workflow = none) :
    (s.perform id action extra).Brings before fun _ _ xs ↦ (∀ x ∈ xs, x.KeepsTopics) →
      ∀ x ∈ xs, x.IsEntitled s id action (extra.withEntered xs) := by
  refine brings_withUpdate (by simp) fun store _ ↦ ?_
  exact (s.brings_performMarked direct).mono fun _ _ _ h ↦ h.isEntitled

/-- A claim that was made is the moderator's when the session goes on, and only a topic that looks
free is claimed. An action that no workflow sends is asked for from a copy that the moderator may
act on just then, with the version and the payload of that copy. -/
theorem acts_only_with_claim (s : Session) (others : Nat → Interlude) (state : State)
    (id : ReviewableId) :
    (let run := (s.ensureClaimed id).amid others state;
      ((∀ x ∈ run.exchanges, x.KeepsTopics) → run.result = true →
        ∀ r, run.state.store.get? id = some r → r.IsOpenTo s.actor.id) ∧
      ∀ x ∈ run.exchanges, ∃ r topic, x.asked.store.get? id = some r ∧ r.topic = some topic ∧
        r.claim = none ∧ x.query = .call (.claim topic true)) ∧
      ∀ action extra, action.workflow = none →
        let run := (s.perform id action extra).amid others state
        (∀ x ∈ run.exchanges, x.KeepsTopics) →
          ∀ x ∈ run.exchanges, x.IsEntitled s id action (extra.withEntered run.exchanges) := by
  have hclaiming := s.brings_ensureClaimed id state others
  refine ⟨⟨fun kept claimed ↦ ?_, hclaiming.requests⟩,
    fun action extra direct ↦ brings_perform_isEntitled direct others⟩
  rw [claimed] at hclaiming
  exact hclaiming.isOpenTo kept

/-- While Alice is asked for a confirmation, a newer copy without her claim arrives. -/
theorem acts_only_with_claim_taken_again :
    let s : Session := ⟨.alice, default, [], [], false, false⟩
    let action : Action :=
      { (default : Action) with name := "agree", confirmation := some "Agree?" }
    let backend : (request : Request) → request.Reply
      | .claim _ automatic => .ok ⟨.alice, automatic⟩
      | _ => .error (.transport "")
    let news (state : State) : State := match state.store.get? 1 with
      | some r => { state with
        store := (state.store.refresh { r with id := 1, version := 3, claim := none }).store }
      | none => state
    let others : Nat → Interlude := fun n ↦
      ⟨Query.answerBy backend, if n = 1 then news else fun state ↦ state⟩
    let state : State := { (default : State) with
      store := (Store.empty.insert (.plain 1 (some 10))).store }
    let run := (s.perform 1 action ∅).amid others state
    (∀ r, ((s.ensureClaimed 1).amid others state).state.store.get? 1 = some r →
        r.IsOpenTo User.alice.id) ∧
      ∃ x ∈ run.exchanges, ∃ r, x.asked.store.get? 1 = some r ∧ r.version = 3 ∧
        r.IsOpenTo User.alice.id ∧ x.query = .call (s.requestFor 1 action ∅ r) := by
  intro s action backend news others state run
  have kept : ∀ n state, State.KeepsTopics state ((others n).meanwhile state) := by
    intro n state
    by_cases hn : n = 1
    · simp only [others, hn, if_true, news]
      split
      · rename_i r hget
        refine state.keepsTopics_refresh fun old hold ↦ ?_
        obtain rfl := Option.some.inj (hget.symm.trans hold)
        rfl
      · exact state.keepsTopics_refl
    · simp only [others, hn, if_false]
      exact state.keepsTopics_refl
  obtain ⟨⟨hclaimed, -⟩, hsent⟩ := s.acts_only_with_claim others state 1
  have hentitled := hsent action ∅ rfl (exchanges_amid (fun n _ state ↦ kept n state) _ state)
  refine ⟨hclaimed (exchanges_amid (fun n _ state ↦ kept n state) _ state) rfl, ?_⟩
  have hlast : run.exchanges[3]?.map (fun x ↦
      (x.query.performs, (x.asked.store.get? 1).map (·.version))) = some (true, some 3) := by
    decide +kernel
  obtain ⟨x, hx, hfacts⟩ := Option.map_eq_some_iff.mp hlast
  obtain ⟨hperforms, hversion⟩ := Prod.mk.inj hfacts
  have hmem : x ∈ run.exchanges := List.mem_of_getElem? hx
  obtain ⟨r, hget, hopen, hquery⟩ := hentitled x hmem hperforms
  exact ⟨x, hmem, r, hget, by simpa [hget] using hversion, hopen, hquery⟩

end Session

end Moderation
