import Moderation.Proofs.Queue.Independence
import Moderation.Proofs.Session.Shift

/-!
# Sessions that share a queue

Any number of sessions send requests to one queue, which serves them one by one in any order, or
never. Nothing is assumed of what a session knows: its store can be as old as it likes, and what it
is answered can be anything. Still a penalty that fails takes nothing back but an automatic claim of
its own moderator, and an explicit claim stays until that moderator gives it up.
-/

namespace Moderation

namespace Queue

variable {q : Queue} {topic : TopicId} {claim : Claim}

theorem after_claim_of_explicit (held : q.topicClaim topic = some claim)
    (explicit : claim.automatic = false) (actor : User) (automatic : Bool) :
    q.after (.request actor (.claim topic automatic)) = q := by
  by_cases hown : claim.user.id = actor.id
  · simp [after, serve, Queue.claim, held, hown, explicit]
  · simp [after, serve, Queue.claim, held, hown]

theorem after_release_of_explicit (held : q.topicClaim topic = some claim)
    (explicit : claim.automatic = false) {actor : User} {automatic : Bool}
    (h : automatic = true ∨ claim.user.id ≠ actor.id) :
    q.after (.request actor (.release topic automatic)) = q := by
  by_cases hown : claim.user.id = actor.id
  · obtain rfl : automatic = true := h.resolve_right (not_not_intro hown)
    simp [after, serve, unclaim, held, hown, explicit]
  · simp [after, serve, unclaim, held, hown]

theorem topicClaim_after_elsewhere {request : Request} {x : Place}
    (footprint : q.footprint? request = some x) (elsewhere : Place.topic topic ≠ x) (actor : User) :
    (q.after (.request actor request)).topicClaim topic = q.topicClaim topic :=
  ((alikeAt_after footprint elsewhere actor).claims topic rfl).symm

/-- An explicit claim stays, unless its holder asks for its release as one. -/
theorem topicClaim_after_of_explicit (held : q.topicClaim topic = some claim)
    (explicit : claim.automatic = false) {actor : User} {request : Request}
    (h : request = .release topic false → claim.user.id ≠ actor.id) :
    (q.after (.request actor request)).topicClaim topic = some claim := by
  cases request with
  | claim other automatic =>
    by_cases heq : other = topic
    · subst other
      rw [after_claim_of_explicit held explicit, held]
    · rw [topicClaim_after_elsewhere rfl (by simpa using Ne.symm heq), held]
  | release other automatic =>
    by_cases heq : other = topic
    · subst other
      rw [after_release_of_explicit held explicit, held]
      cases automatic with
      | true => exact .inl rfl
      | false => exact .inr (h rfl)
    · rw [topicClaim_after_elsewhere rfl (by simpa using Ne.symm heq), held]
  | perform id action version data =>
    have hcases := q.request_cases actor (.perform id action version data)
    rcases hcases with ⟨-, hafter, -⟩ | ⟨-, heffect⟩
    · rw [hafter, held]
    · generalize q.after _ = q' at heffect ⊢
      generalize q.told _ = events at heffect
      cases heffect with
      | performed => exact held
      | settled _ _ _ _ r status other found writable granted inTopic last =>
        have hne : other ≠ topic := by
          rintro rfl
          simp [isSettled, held, explicit] at last
        rw [topicClaim_setTopicClaim_of_ne _ _ hne]
        exact held
  | fetch | list | update =>
    rcases q.request_cases actor _ with ⟨-, hafter, -⟩ | ⟨-, heffect⟩
    · rw [hafter, held]
    · generalize q.after _ = q' at heffect ⊢
      generalize q.told _ = events at heffect
      cases heffect
      exact held

/-- An automatic release takes an automatic claim of the actor's away, and no other. -/
theorem topicClaim_after_release {actor : User} {other : TopicId}
    (h : (q.after (.request actor (.release topic true))).topicClaim other ≠ q.topicClaim other) :
    other = topic ∧ (q.after (.request actor (.release topic true))).topicClaim other = none ∧
      ∃ claim, q.topicClaim other = some claim ∧ claim.automatic = true ∧
        claim.user.id = actor.id := by
  obtain rfl : other = topic := by
    by_contra hne
    exact h (topicClaim_after_elsewhere rfl (by simpa using hne) actor)
  cases held : q.topicClaim other with
  | none => simp [after, serve, unclaim, held] at h
  | some claim =>
    by_cases hown : claim.user.id = actor.id
    · cases hautomatic : claim.automatic with
      | false => simp [after_release_of_explicit held hautomatic (.inl rfl)] at h
      | true =>
        refine ⟨rfl, ?_, claim, rfl, hautomatic, hown⟩
        simp [after, serve, unclaim, held, hown, hautomatic]
    · simp [after, serve, unclaim, held, hown] at h

end Queue

/-- A session that works for an office. -/
structure Seat where
  session : Session
  shift : Session.Shift

/-- Sessions and the queue that they all use. -/
structure Office where
  queue : Queue
  seats : List Seat

namespace Office

variable {office : Office} {topic : TopicId} {claim : Claim}

inductive Move where
  /-- One of the sessions does something. -/
  | work (n : Nat) (move : Session.Shift.Move)
  /-- The queue serves one of the requests that a session sent. -/
  | serve (n k : Nat)
  | setMode (mode : ClaimMode)
  | insert (r : Reviewable)

def opened (queue : Queue) (sessions : List Session) : Office :=
  ⟨queue, sessions.map fun s ↦ ⟨s, .opened⟩⟩

/-- A request that is not served yet, and who sent it. -/
def letter? (office : Office) (n k : Nat) : Option (User × Session.Letter) :=
  office.seats[n]?.bind fun seat ↦ seat.shift.outbox[k]?.map (seat.session.actor, ·)

def step (office : Office) : Move → Office
  | .work n move =>
    { office with
      seats := office.seats.modify n fun seat ↦
        { seat with shift := seat.shift.step seat.session move } }
  | .serve n k => match office.letter? n k with
    | some (actor, letter) => {
        queue := office.queue.after (.request actor letter.request)
        seats := office.seats.modify n fun seat ↦
          { seat with shift.outbox := seat.shift.outbox.eraseIdx k } }
    | none => office
  | .setMode mode => { office with queue := office.queue.setMode mode }
  | .insert r => { office with queue := office.queue.insert r }

def run (office : Office) (moves : List Move) : Office := moves.foldl step office

/-- The queue serves a moderator who gives up an explicit claim on the topic. -/
def Unclaims (office : Office) (topic : TopicId) (user : UserId) (move : Move) : Prop :=
  ∃ n k actor letter, move = .serve n k ∧ office.letter? n k = some (actor, letter) ∧
    letter.errand.isUnclaim = true ∧ letter.request = .release topic false ∧ actor.id = user

/-- No move of a run is one by which the moderator gives the claim up. -/
def NeverUnclaimed (office : Office) (topic : TopicId) (user : UserId) (moves : List Move) : Prop :=
  ∀ before move rest, moves = before ++ move :: rest →
    ¬ (office.run before).Unclaims topic user move

/-- The requests are ones that the errands make. -/
def Sound (office : Office) : Prop := ∀ seat ∈ office.seats, seat.shift.Sound

theorem Sound.modify (h : office.Sound) (n : Nat) {change : Seat → Seat}
    (kept : ∀ seat : Seat, seat.shift.Sound → (change seat).shift.Sound) :
    ∀ seat ∈ office.seats.modify n change, seat.shift.Sound := by
  intro seat hseat
  obtain ⟨m, hm⟩ := List.mem_iff_getElem?.mp hseat
  rw [List.getElem?_modify] at hm
  obtain ⟨before, hbefore, rfl⟩ := Option.map_eq_some_iff.mp hm
  have hsound := h before (List.mem_of_getElem? hbefore)
  split
  · exact kept before hsound
  · exact hsound

theorem Sound.step (h : office.Sound) (move : Move) : (office.step move).Sound := by
  cases move with
  | work n move => exact h.modify n fun seat hseat ↦ hseat.step seat.session move
  | serve n k =>
    cases hletter : office.letter? n k with
    | none => simpa only [Office.step, hletter] using h
    | some sent =>
      simp only [Office.step, hletter]
      apply h.modify n
      intro seat hseat
      exact ⟨hseat.marked, hseat.jobs, fun letter hletter ↦
        hseat.outbox letter (List.mem_of_mem_eraseIdx hletter)⟩
  | setMode mode => exact h
  | insert r => exact h

theorem Sound.run (h : office.Sound) (moves : List Move) : (office.run moves).Sound := by
  induction moves generalizing office with
  | nil => exact h
  | cons move rest ih => exact ih (h.step move)

theorem sound_opened (queue : Queue) (sessions : List Session) : (opened queue sessions).Sound := by
  intro seat hseat
  obtain ⟨s, -, rfl⟩ := List.mem_map.mp hseat
  exact Session.Shift.sound_opened

theorem Sound.proper (h : office.Sound) {n k : Nat} {actor : User} {letter : Session.Letter}
    (found : office.letter? n k = some (actor, letter)) : letter.Proper := by
  obtain ⟨seat, hseat, hletter⟩ := Option.bind_eq_some_iff.mp found
  obtain ⟨other, hother, heq⟩ := Option.map_eq_some_iff.mp hletter
  obtain ⟨-, rfl⟩ := Prod.mk.inj heq
  exact (h seat (List.mem_of_getElem? hseat)).outbox other (List.mem_of_getElem? hother)

/-- An explicit claim stays through a step by which its holder does not give it up. -/
theorem Sound.explicit_step (h : office.Sound) (held : office.queue.topicClaim topic = some claim)
    (explicit : claim.automatic = false) {move : Move}
    (kept : ¬ office.Unclaims topic claim.user.id move) :
    (office.step move).queue.topicClaim topic = some claim := by
  cases move with
  | work n move => exact held
  | serve n k =>
    cases hletter : office.letter? n k with
    | none => simpa only [Office.step, hletter] using held
    | some sent =>
      obtain ⟨actor, letter⟩ := sent
      simp only [Office.step, hletter]
      apply Queue.topicClaim_after_of_explicit held explicit
      intro hrequest hown
      -- No other errand asks for the release of an explicit claim.
      have hunclaim : letter.errand.isUnclaim = true := by
        by_contra hother
        have hmild := h.proper hletter (by simpa using hother)
        rw [hrequest] at hmild
        cases hmild
      exact kept ⟨n, k, actor, letter, rfl, hletter, hunclaim, hrequest, hown.symm⟩
  | setMode mode => exact held
  | insert r =>
    change (office.queue.insert r).topicClaim topic = some claim
    rw [Queue.topicClaim_insert]
    split
    · rename_i htopic
      simp [Queue.shownIn, htopic, held]
    · exact held

theorem Sound.explicit_run (h : office.Sound) (held : office.queue.topicClaim topic = some claim)
    (explicit : claim.automatic = false) {moves : List Move}
    (kept : office.NeverUnclaimed topic claim.user.id moves) :
    (office.run moves).queue.topicClaim topic = some claim := by
  induction moves generalizing office with
  | nil => exact held
  | cons move rest ih =>
    have hmove : ¬ office.Unclaims topic claim.user.id move := kept [] move rest rfl
    apply ih (h.step move) (h.explicit_step held explicit hmove)
    intro before next after heq
    exact kept (move :: before) next after (by rw [heq, List.cons_append])

/-- At every point of every run: a penalty that takes its claim back takes an automatic claim of the
session's own moderator from the queue or none at all; and an explicit claim stays as it is through
whatever follows, until the queue serves a moderator of the same number who gives it up. -/
theorem explicit_claims_survive_rollbacks (queue : Queue) (sessions : List Session)
    (moves : List Move) :
    let office := (opened queue sessions).run moves
    (∀ n k actor letter topic automatic, office.letter? n k = some (actor, letter) →
      letter.errand.isUnclaim = false → letter.request = .release topic automatic →
        ∀ other, (office.step (.serve n k)).queue.topicClaim other ≠ office.queue.topicClaim other →
          other = topic ∧ (office.step (.serve n k)).queue.topicClaim other = none ∧
            ∃ claim, office.queue.topicClaim other = some claim ∧ claim.automatic = true ∧
              claim.user.id = actor.id) ∧
      ∀ topic claim, office.queue.topicClaim topic = some claim → claim.automatic = false →
        ∀ more, office.NeverUnclaimed topic claim.user.id more →
          (office.run more).queue.topicClaim topic = some claim := by
  intro office
  have hsound : office.Sound := (sound_opened queue sessions).run moves
  refine ⟨fun n k actor letter topic automatic hletter hother hrequest other hchanged ↦ ?_,
    fun topic claim held explicit more kept ↦ hsound.explicit_run held explicit kept⟩
  have hautomatic : automatic = true := by
    have hmild := hsound.proper hletter hother
    rwa [hrequest] at hmild
  subst hautomatic
  simp only [Office.step, hletter, hrequest] at hchanged ⊢
  exact Queue.topicClaim_after_release hchanged

/-- A penalty fails after its moderator claimed the topic explicitly in another session. What is
sent to take the automatic claim back leaves the explicit one. -/
theorem explicit_claims_survive_rollbacks_of_stale_session :
    let s : Session := ⟨.alice, default, [], [], true, false⟩
    let answers : (query : Query) → query.Answer
      | .call (.claim ..) => .ok ⟨.alice, true⟩
      | .call _ => .error (.transport "")
      | .confirm _ => true
      | .collect .. => none
      | .edit _ => true
      | .penalize .. => .finish false
      | .run .. => .finish (.ok ())
    let r := { Reviewable.plain 4 (some 10) with author := some .bob }
    let suspend : Action := { (default : Action) with name := "agree", workflow := some "suspend" }
    let office := (opened (.ofSeed .optional [r]) [s, s]).run
      [.work 0 (.touch (.insert r)), .work 0 (.start (.perform 4 suspend ∅)), .serve 0 0,
        .work 0 (.answer 0 answers), .work 1 (.touch (.insert r)), .work 1 (.start (.claim 4)),
        .serve 1 0, .work 0 (.answer 0 answers)]
    (office.letter? 0 0).any (fun (_, letter) ↦ match letter.request with
        | .release topic automatic => topic = 10 ∧ automatic
        | _ => false) = true ∧
      (office.run [.serve 0 0]).queue.topicClaim 10 = some ⟨.alice, false⟩ := by
  intro s answers r suspend office
  have hletter : (office.letter? 0 0).any (fun (_, letter) ↦ match letter.request with
      | .release topic automatic => topic = 10 ∧ automatic
      | _ => false) = true := by decide +kernel
  have held : office.queue.topicClaim 10 = some ⟨.alice, false⟩ := by decide +kernel
  have hexplicit : ∀ topic claim, office.queue.topicClaim topic = some claim →
      claim.automatic = false → ∀ more, office.NeverUnclaimed topic claim.user.id more →
        (office.run more).queue.topicClaim topic = some claim :=
    (explicit_claims_survive_rollbacks _ _ _).2
  -- From here on the office is known by these facts, and is not run again.
  clear_value office
  refine ⟨hletter, hexplicit 10 ⟨.alice, false⟩ held rfl [.serve 0 0] ?_⟩
  intro before move rest heq
  have hone : before = [] ∧ move = .serve 0 0 := by
    cases before with
    | nil => exact ⟨rfl, (List.cons.inj heq).1.symm⟩
    | cons first before => simp at heq
  obtain ⟨rfl, rfl⟩ := hone
  rintro ⟨n, k, actor, letter, hmove, hfound, -, hrequest, -⟩
  obtain ⟨rfl, rfl⟩ := Move.serve.inj hmove
  rw [show office.letter? 0 0 = some (actor, letter) from hfound] at hletter
  simp [hrequest] at hletter

end Office

end Moderation
