import Moderation.Proofs.Session.Performing

/-!
# The parties of a call

A call has one party for itself and one for each send beside its plan. The right to send is always
with one of them at most. Each keeps in every turn of its own to what the others rely on, so each is
safe in its next turn as well, and all of them are after every run.
-/

namespace Moderation

inductive Party where
  | call
  /-- The send of a number beside the plan. -/
  | send (n : Nat)
deriving DecidableEq

/-- Somebody else is in the middle of a send. -/
def beside (sender : Option Party) (party : Party) : Bool := sender.any (· != party)

/-- The sender after a turn of a party. -/
def passOn (sender : Option Party) (party : Party) (sends : Bool) : Option Party :=
  if sends then some party else if sender = some party then none else sender

section Sender

variable {sender : Option Party} {party other : Party} {sends : Bool}

theorem beside_iff : beside sender party = true ↔ ∃ other, sender = some other ∧ other ≠ party := by
  cases sender <;> simp [beside]

theorem beside_eq_false_iff :
    beside sender party = false ↔ ∀ other, sender = some other → other = party := by
  cases sender <;> simp [beside]

theorem beside_of_sender (h : sender = some other) (hne : other ≠ party) :
    beside sender party = true := by
  simp [beside, h, hne]

/-- Somebody sends, or the others do. -/
theorem or_beside {sends : Bool} (h : sends = true ↔ sender = some party) :
    (sends || beside sender party) = sender.isSome := by
  cases sender with
  | none => simpa [beside] using h
  | some other => by_cases hother : other = party <;> simp_all [beside]

/-- Who sends is alone, so the right to send goes to one party at most. -/
theorem passOn_self : passOn sender party sends = some party ↔ sends = true := by
  unfold passOn
  split
  · simp_all
  · split <;> simp_all

theorem passOn_other (alone : sends = true → beside sender party = false) (hne : other ≠ party) :
    passOn sender party sends = some other ↔ sender = some other := by
  unfold passOn
  split
  · rename_i hsends
    have halone := beside_eq_false_iff.mp (alone hsends) other
    simp only [Option.some.injEq, Ne.symm hne, false_iff]
    exact fun h ↦ hne (halone h)
  · split
    · rename_i hsender
      simp [hsender, Ne.symm hne]
    · rfl

theorem beside_passOn (alone : sends = true → beside sender party = false) :
    beside (passOn sender party sends) party = beside sender party := by
  unfold passOn
  split
  · rename_i hsends
    rw [alone hsends]
    simp [beside]
  · split
    · rename_i hsender
      simp [beside, hsender]
    · rfl

end Sender

theorem Scene.view_disturb {scene : Scene}
    (there : ∀ n, scene.slot = some n → n < scene.state.dispatches.length) (store : Store)
    (journal : List Note) (touch : Nat → Dispatch → Dispatch) (created : List Dispatch)
    (busy : Bool) : (scene.disturb store journal touch created).view busy = scene.view busy := by
  have hdispatch : (scene.disturb store journal touch created).slot.bind
      ((scene.disturb store journal touch created).state.dispatches[·]?) =
      scene.slot.bind (scene.state.dispatches[·]?) := by
    change scene.slot.bind _ = _
    cases hslot : scene.slot with
    | none => rfl
    | some n =>
      have hn := there n hslot
      have hlength : n < (scene.state.dispatches.mapIdx fun m d ↦
          if scene.slot = some m then d else touch m d).length := by simpa using hn
      change (_ ++ created)[n]? = scene.state.dispatches[n]?
      rw [List.getElem?_append_left hlength]
      simp [hslot, hn]
  unfold view
  rw [hdispatch]
  rfl

/-- What a send beside the plan leaves behind, once its result is given out. -/
structure View.Concludes (v : View) (result : Except SessionFault Completion) : Prop where
  settled : v.Settled false [result]
  leaves : ∀ performed, v.stage = .landed performed → performed.Leaves result

/-- The dispatch stands as it should from whosever side. -/
theorem View.Settled.turn {scene : Scene} {sends sends' busy busy' : Bool}
    (settled : (scene.view busy).Settled sends []) (hslot : scene.slot ≠ none)
    (h : (sends' || busy') = (sends || busy)) : (scene.view busy').Settled sends' [] where
  standing n hn := by
    obtain ⟨dispatch, hdispatch, hstanding⟩ := settled.standing n hn
    refine ⟨dispatch, hdispatch, ?_⟩
    change Standing _ (sends' || busy') _
    rw [h]
    exact hstanding
  direct hnone := absurd hnone hslot
  completed := settled.completed
  said := settled.said

namespace Course

variable {course : Course} {sender : Option Party} {n : Nat} {scene : Scene}

/-- The sends beside the plan are right. -/
structure Beside (course : Course) (sender : Option Party) : Prop where
  send_iff : ∀ n, (∃ send, course.sends[n]? = some send ∧ send.sends = true) ↔
    sender = some (.send n)
  rests : ∀ (n : Nat) query next, course.sends[n]? = some (Pause.waits query next) →
    (Pause.waits query next).Rests .send (fun result v ↦ v.Concludes result)
      (course.scene.view false)
  shared : course.sends ≠ [] → course.scene.log.isShared = true

/-- The call and all its sends are right, and one of them at most has the right to send. -/
structure Sound (course : Course) (sender : Option Party) : Prop extends
    Beside course sender where
  orderly : course.scene.log.Orderly
  call_iff : course.call.sends = true ↔ sender = some .call
  call : course.call.Rests .call (fun outcome v ↦ v.Verdict outcome)
    (course.scene.view (beside sender .call))
  settled : ∀ query next, course.call = .waits query next →
    (course.scene.view (beside sender .call)).Settled query.sends []

/-- The sends beside the plan do not mind a turn of the call. -/
theorem Beside.turn (besides : course.Beside sender)
    (turn : Scene.Turn .call (beside sender .call) course.scene scene) {sends : Bool}
    (alone : sends = true → beside sender .call = false)
    (call : Pause (Except SessionFault Outcome)) :
    Beside { course with scene, call } (passOn sender .call sends) where
  send_iff n := (besides.send_iff n).trans (passOn_other alone (by simp)).symm
  rests n query next hsend := by
    have hrests := besides.rests n query next hsend
    have hsends : query.sends = true := hrests.2.1 rfl
    have hsender : sender = some (.send n) := (besides.send_iff n).mp ⟨_, hsend, hsends⟩
    have hshared : course.scene.log.isShared = true := besides.shared (by
      rintro hnil
      simp [hnil] at hsend)
    exact hrests.later ⟨⟨turn.slot (.inr hshared), nofun, nofun, nofun⟩,
      fun _ ↦ turn.stage (beside_of_sender hsender (by simp))⟩
  shared hne := turn.shared (besides.shared hne)

theorem sound_proceed (besides : course.Beside sender) {task : Task (Except SessionFault Outcome)}
    (turn : Scene.Turn .call (beside sender .call) course.scene scene)
    (safe : task.Safe .call (fun outcome v ↦ v.Verdict outcome) scene (beside sender .call)) :
    (course.proceed scene task).Sound (passOn sender .call (task.advance scene).1.sends) := by
  obtain ⟨hturn, hrests, hstops⟩ := safe.turn turn.orderly
  have halone : (task.advance scene).1.sends = true → beside sender .call = false := by
    cases hpause : (task.advance scene).1 with
    | ended outcome => nofun
    | waits query next => exact (hstops query next hpause).2
  have hbeside := beside_passOn halone
  refine ⟨besides.turn (turn.trans hturn) halone _, hturn.orderly, passOn_self.symm, ?_, ?_⟩
  · rw [hbeside]
    exact hrests
  · intro query next hcall
    rw [hbeside]
    exact (hstops query next hcall).1

theorem Sound.sends_iff (sound : course.Sound sender) {query : Query}
    {next : query.Answer → Task (Except SessionFault Outcome)}
    (hcall : course.call = .waits query next) : query.sends = true ↔ sender = some .call := by
  have hiff := sound.call_iff
  rwa [hcall] at hiff

theorem Sound.proceed (sound : course.Sound sender) {query : Query}
    {next : query.Answer → Task (Except SessionFault Outcome)}
    (hcall : course.call = .waits query next) (answer : query.Answer) :
    ∃ sender', (course.proceed (course.scene.happens (.answered query answer))
      (next answer)).Sound sender' := by
  obtain ⟨underWay, -, rest⟩ : (Pause.waits query next).Rests .call _ _ := hcall ▸ sound.call
  have hsends := sound.sends_iff hcall
  have halone : query.sends = true → beside sender .call = false := by
    intro h
    simp [hsends.mp h, Moderation.beside]
  have hsecret : course.scene.log.isShared = false → beside sender .call = false := by
    intro hshared
    rw [beside_eq_false_iff]
    rintro (_ | n) hsender
    · rfl
    · obtain ⟨send, hsend, -⟩ := (sound.send_iff n).mpr hsender
      have hne : course.sends ≠ [] := by
        rintro hnil
        simp [hnil] at hsend
      simp [sound.shared hne] at hshared
  have hresumes : (course.scene.view (beside sender .call)).Resumes .call query
      (course.scene.view (beside sender .call)) := by
    refine ⟨⟨View.keeps_refl _ _, fun _ ↦ rfl⟩, ?_, sound.settled query next hcall⟩
    rintro (h | ⟨-, h⟩)
    · exact halone h
    · exact hsecret h
  have hturn : Scene.Turn .call (beside sender .call) course.scene
      (course.scene.happens (.answered query answer)) := by
    refine Scene.turn_answered sound.orderly underWay (fun hbusy ↦ ?_)
      (by rintro ⟨⟩) answer
    rw [← Bool.not_eq_true]
    intro h
    simp [halone h] at hbusy
  exact ⟨_, sound_proceed sound.toBeside hturn (rest answer _ _ hresumes)⟩

/-- What is handed out is a dispatch. -/
theorem Sound.slot_ne_none (sound : course.Sound sender) {query : Query}
    {next : query.Answer → Task (Except SessionFault Outcome)}
    (hcall : course.call = .waits query next) (shared : course.scene.log.isShared = true) :
    course.scene.slot ≠ none := by
  intro hnone
  have hsecret : course.scene.log.isShared = false :=
    ((sound.settled query next hcall).direct hnone).2.1
  simp [shared] at hsecret

theorem Sound.settled_beside (sound : course.Sound sender) {query : Query}
    {next : query.Answer → Task (Except SessionFault Outcome)}
    (hcall : course.call = .waits query next) (shared : course.scene.log.isShared = true)
    {party : Party} {sends : Bool} (h : sends = true ↔ sender = some party) :
    (course.scene.view (beside sender party)).Settled sends [] := by
  have hcall_iff := sound.sends_iff hcall
  refine (sound.settled query next hcall).turn (sound.slot_ne_none hcall shared) ?_
  rw [or_beside h, or_beside hcall_iff]

theorem getElem?_sends_pursue (hn : n ≤ course.sends.length) (scene : Scene)
    (task : Task (Except SessionFault Completion)) (m : Nat) :
    (course.pursue n scene task).sends[m]? =
      if m = n then some (task.advance scene).1 else course.sends[m]? := by
  change (course.sends.take n ++ _ :: course.sends.drop (n + 1))[m]? = _
  grind

/-- What a turn of a send leaves behind, and how it can go on. -/
theorem turn_pursue (course : Course) (n : Nat) {busy : Bool}
    {task : Task (Except SessionFault Completion)} (orderly : scene.log.Orderly)
    (safe : task.Safe .send (fun result v ↦ v.Concludes result) scene busy) :
    scene.Turn .send busy (course.pursue n scene task).scene ∧
      ((course.pursue n scene task).scene.view busy).Settled (task.advance scene).1.sends [] ∧
      ((task.advance scene).1.sends = true → busy = false) ∧
      ∀ query next, (task.advance scene).1 = .waits query next →
        (Pause.waits query next).Rests .send (fun result v ↦ v.Concludes result)
          ((course.pursue n scene task).scene.view false) := by
  obtain ⟨hturn, hrests, hstops⟩ := safe.turn orderly
  have hscene : (course.pursue n scene task).scene = { (task.advance scene).2 with
      log := (task.advance scene).2.log ++ (task.advance scene).1.conclusion } := rfl
  rw [hscene]
  cases hpause : (task.advance scene).1 with
  | ended result =>
    rw [hpause] at hrests
    obtain ⟨hsettled, hleaves⟩ := hrests
    refine ⟨hturn.trans (Scene.turn_ended hturn.orderly hleaves), ?_, nofun, by simp⟩
    change ((task.advance scene).2.happens (.ended result)).view busy |>.Settled false []
    rw [Scene.view_happens]
    exact hsettled.ended
  | waits query next =>
    obtain ⟨hsettled, halone⟩ := hstops query next hpause
    rw [hpause] at hrests
    rw [Pause.conclusion, List.append_nil]
    refine ⟨hturn, hsettled, halone, ?_⟩
    rintro _ _ ⟨⟩
    exact hrests.later ⟨⟨rfl, nofun, nofun, nofun⟩, fun _ ↦ rfl⟩

theorem Sound.pursue (sound : course.Sound sender) {query : Query}
    {next : query.Answer → Task (Except SessionFault Outcome)}
    (hcall : course.call = .waits query next) (shared : course.scene.log.isShared = true)
    (hn : n ≤ course.sends.length) {task : Task (Except SessionFault Completion)}
    (turn : Scene.Turn .send (beside sender (.send n)) course.scene scene)
    (safe : task.Safe .send (fun result v ↦ v.Concludes result) scene (beside sender (.send n))) :
    (course.pursue n scene task).Sound
      (passOn sender (.send n) (task.advance scene).1.sends) := by
  obtain ⟨hturn, hsettled, halone, hrests⟩ := turn_pursue course n turn.orderly safe
  replace hturn := turn.trans hturn
  have hcall_iff := sound.sends_iff hcall
  have hcall_rests : (Pause.waits query next).Rests .call (fun outcome v ↦ v.Verdict outcome)
      (course.scene.view (beside sender .call)) := hcall ▸ sound.call
  have hcall_passed : query.sends = true ↔
      passOn sender (.send n) (task.advance scene).1.sends = some .call :=
    hcall_iff.trans (passOn_other halone (by simp)).symm
  refine ⟨⟨fun m ↦ ?_, fun m query' next' hsend ↦ ?_, fun _ ↦ hturn.shared shared⟩,
    hturn.orderly, sound.call_iff.trans (passOn_other halone (by simp)).symm, ?_, ?_⟩
  · rw [getElem?_sends_pursue hn]
    by_cases hm : m = n
    · simp [hm, passOn_self]
    · rw [if_neg hm, passOn_other halone (by simpa using hm)]
      exact sound.send_iff m
  · rw [getElem?_sends_pursue hn] at hsend
    by_cases hm : m = n
    · rw [if_pos hm] at hsend
      exact hrests query' next' (Option.some.inj hsend)
    · rw [if_neg hm] at hsend
      have hold := sound.rests m query' next' hsend
      have hsender := (sound.send_iff m).mp ⟨_, hsend, hold.2.1 rfl⟩
      exact hold.later ⟨⟨hturn.slot (.inl rfl), nofun, nofun, nofun⟩,
        fun _ ↦ hturn.stage (beside_of_sender hsender (by simpa using hm))⟩
  · change course.call.Rests _ _ _
    rw [hcall]
    obtain ⟨hslot', hshared', hplan', htold'⟩ := hturn.frame rfl
    refine hcall_rests.later ⟨⟨hslot', hshared', hplan', htold'⟩, ?_⟩
    rintro (hsends | ⟨-, hsecret⟩)
    · exact hturn.stage (beside_of_sender (hcall_iff.mp hsends) (by simp))
    · change course.scene.log.isShared = false at hsecret
      simp [shared] at hsecret
  · intro query' next' hcall'
    obtain ⟨rfl, -⟩ := Pause.waits.inj (hcall.symm.trans hcall')
    refine hsettled.turn ?_ ?_
    · rw [hturn.slot (.inl rfl)]
      exact sound.slot_ne_none hcall shared
    · rw [or_beside hcall_passed, ← or_beside passOn_self.symm, beside_passOn halone]

/-! ## Runs -/

/-- The dispatch of a call is there as long as the call waits. -/
theorem Sound.exists_dispatch (sound : course.Sound sender) {query : Query}
    {next : query.Answer → Task (Except SessionFault Outcome)}
    (hcall : course.call = .waits query next) (hslot : course.scene.slot = some n) :
    ∃ dispatch busy, course.scene.state.dispatches[n]? = some dispatch ∧
      Standing course.scene.log.stage busy dispatch := by
  obtain ⟨dispatch, hdispatch, hstanding⟩ := (sound.settled query next hcall).standing n hslot
  exact ⟨dispatch, _, by simpa [Scene.view, hslot] using hdispatch, hstanding⟩

/-- What other tasks do does not matter. -/
theorem Sound.disturb (sound : course.Sound sender) {query : Query}
    {next : query.Answer → Task (Except SessionFault Outcome)}
    (hcall : course.call = .waits query next) (store : Store) (journal : List Note)
    (touch : Nat → Dispatch → Dispatch) (created : List Dispatch) :
    (course.disturb store journal touch created).Sound sender := by
  have hview : ∀ busy, (course.disturb store journal touch created).scene.view busy =
      course.scene.view busy := by
    refine Scene.view_disturb (fun n hslot ↦ ?_) store journal touch created
    obtain ⟨dispatch, _, hdispatch, -⟩ := sound.exists_dispatch hcall hslot
    exact (List.getElem?_eq_some_iff.mp hdispatch).1
  refine ⟨⟨sound.send_iff, ?_, sound.shared⟩, sound.orderly, sound.call_iff, ?_, ?_⟩
  · rw [hview]
    exact sound.rests
  · rw [hview]
    exact sound.call
  · rw [hview]
    exact sound.settled

theorem Sound.step (sound : course.Sound sender) (s : Session) (id : ReviewableId) (action : Action)
    (move : Move) : ∃ sender', (step s id action course move).Sound sender' := by
  unfold Course.step
  cases hcall : course.call with
  | ended outcome => exact ⟨sender, sound⟩
  | waits query next =>
    cases move with
    | answer answers => exact sound.proceed hcall (answers query)
    | send extra more =>
      dsimp only
      cases hslot : course.scene.slot with
      | none => exact ⟨sender, sound⟩
      | some n =>
        dsimp only
        split
        · rename_i hshared
          have hnew : false = true ↔ sender = some (.send course.sends.length) := by
            rw [← sound.send_iff]
            simp
          refine ⟨_, sound.pursue hcall hshared (Nat.le_refl _) (Scene.turn_refl sound.orderly) ?_⟩
          exact Task.Safe.mono
            (s.safe_dispatch more rfl (sound.settled_beside hcall hshared hnew) hslot)
            fun result v hdispatch ↦ ⟨hdispatch.settled, fun _ ↦ hdispatch.leaves⟩
        · exact ⟨sender, sound⟩
    | reply n answers =>
      dsimp only
      split
      · rename_i query' next' hsend
        obtain ⟨hlength, -⟩ := List.getElem?_eq_some_iff.mp hsend
        have hshared := sound.shared (List.ne_nil_of_length_pos (Nat.zero_lt_of_lt hlength))
        obtain ⟨underWay, hsends, rest⟩ := sound.rests n query' next' hsend
        have hsender : sender = some (.send n) := (sound.send_iff n).mp ⟨_, hsend, hsends rfl⟩
        have halone : beside sender (.send n) = false := by simp [hsender, Moderation.beside]
        have hturn : Scene.Turn .send (beside sender (.send n)) course.scene
            (course.scene.happens (.answered query' (answers query'))) :=
          Scene.turn_answered sound.orderly underWay (by simp [halone]) hsends _
        refine ⟨_, sound.pursue hcall hshared (Nat.le_of_lt hlength) hturn (rest _ _ _ ?_)⟩
        exact ⟨⟨⟨rfl, nofun, nofun, nofun⟩, fun _ ↦ rfl⟩, fun _ ↦ halone,
          sound.settled_beside hcall hshared (by simp [hsends, hsender])⟩
      · exact ⟨sender, sound⟩
    | disturb store journal touch created =>
      exact ⟨sender, sound.disturb hcall store journal touch created⟩

theorem Sound.run (sound : course.Sound sender) (s : Session) (id : ReviewableId) (action : Action)
    (moves : List Move) : ∃ sender', (run s id action course moves).Sound sender' := by
  induction moves generalizing course sender with
  | nil => exact ⟨sender, sound⟩
  | cons move rest ih =>
    obtain ⟨sender', hstep⟩ := sound.step s id action move
    exact ih hstep

theorem sound_start (s : Session) (id : ReviewableId) (action : Action) (extra : Fields)
    (state : Session.State) : ∃ sender, (start s id action extra state).Sound sender := by
  have hidle : (Scene.view ⟨state, none, []⟩ (beside none .call)).Idle := by
    refine ⟨⟨nofun, fun _ ↦ ⟨rfl, rfl, rfl⟩, ?_, nofun⟩, rfl, rfl, rfl, rfl⟩
    simp [Scene.view, Log.results]
  have hbesides : Beside ⟨⟨state, none, []⟩, .ended (.error (.inFlight id)), []⟩ none :=
    ⟨by simp, by simp, by simp⟩
  exact ⟨_, sound_proceed hbesides (Scene.turn_refl List.Pairwise.nil)
    (s.safe_performCall action extra hidle rfl)⟩

end Course

end Moderation
