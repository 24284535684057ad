import Moderation.Proofs.Throughout
import Moderation.Session.Live

/-!
# Holding on to a subscription

A session subscribes at once and for as long as somebody holds on to the subscription, and there is
one subscription for all of them. So whoever lets go ends it for the others too. As long as that
does not happen, every event that comes is applied.
-/

namespace Moderation

theorem Task.bind_assoc {α β γ : Type} (task : Task α) (f : α → Task β) (g : β → Task γ) :
    (task >>= f) >>= g = task >>= fun a ↦ f a >>= g := by
  change (task.bind f).bind g = task.bind fun a ↦ (f a).bind g
  induction task with
  | done a => rfl
  | sync change next ih => exact congrArg (sync change) (funext ih)
  | mark id next ih => exact congrArg (mark id) (funext ih)
  | unmark id next ih => exact congrArg (unmark id) ih
  | ask query next ih => exact congrArg (ask query) (funext ih)

/-- Deliveries may be received one part after another. -/
theorem Session.receiveAll_append (s : Session) (first rest : List (Mailbox.Delivery Event)) :
    s.receiveAll (first ++ rest) = s.receiveAll first >>= fun _ ↦ s.receiveAll rest := by
  induction first with
  | nil => rfl
  | cons delivery first ih =>
    change (s.receive delivery >>= fun _ ↦ s.receiveAll (first ++ rest)) =
      (s.receive delivery >>= fun _ ↦ s.receiveAll first) >>= fun _ ↦ s.receiveAll rest
    rw [ih, Task.bind_assoc]

/-- What comes last is not lost to what came before. -/
theorem Mailbox.deliveries_post {α : Type} {box : Mailbox α} (room : 0 < box.capacity)
    (message : α) :
    ∃ before, (box.post message).deliveries = before ++ [.message message] := by
  have hexcess : (box.waiting ++ [message]).length - box.capacity ≤ box.waiting.length := by
    rw [List.length_append, List.length_singleton]
    omega
  unfold post deliveries
  dsimp only
  rw [List.drop_append_of_le_length hexcess, List.map_append, ← List.append_assoc]
  exact ⟨_, rfl⟩

namespace Mailboxes

/-- In each mailbox there is room for an event. -/
structure HaveRoom (boxes : Mailboxes) : Prop where
  claims : 0 < boxes.claims.capacity
  actions : 0 < boxes.actions.capacity
  resyncs : 0 < boxes.resyncs.capacity

theorem haveRoom_create (capacity : Nat) : (create capacity).HaveRoom := by
  have hroom (n : Nat) : 0 < n.nextPowerOfTwo :=
    Nat.pos_of_isPowerOfTwo (Nat.isPowerOfTwo_nextPowerOfTwo n)
  exact ⟨hroom capacity, hroom capacity, hroom 1⟩

theorem HaveRoom.post {boxes : Mailboxes} (room : boxes.HaveRoom) (event : Event) :
    (boxes.post event).HaveRoom := by
  cases event <;> exact ⟨room.claims, room.actions, room.resyncs⟩

theorem HaveRoom.emptied {boxes : Mailboxes} (room : boxes.HaveRoom) : boxes.emptied.HaveRoom :=
  ⟨room.claims, room.actions, room.resyncs⟩

/-- In a mailbox with room the new message is there afterwards. -/
theorem HaveRoom.deliveries_post {boxes : Mailboxes} (room : boxes.HaveRoom) (event : Event) :
    ∃ before after, (boxes.post event).deliveries = before ++ .message event :: after := by
  cases event with
  | claimTransfer transfer =>
    obtain ⟨before, h⟩ := Mailbox.deliveries_post room.claims (.claimTransfer transfer)
    refine ⟨before, boxes.actions.deliveries ++ boxes.resyncs.deliveries, ?_⟩
    simp [Mailboxes.deliveries, Mailboxes.post, h]
  | actionCompleted completed =>
    obtain ⟨before, h⟩ := Mailbox.deliveries_post room.actions (.actionCompleted completed)
    refine ⟨boxes.claims.deliveries ++ before, boxes.resyncs.deliveries, ?_⟩
    simp [Mailboxes.deliveries, Mailboxes.post, h]
  | resync =>
    obtain ⟨before, h⟩ := Mailbox.deliveries_post room.resyncs .resync
    refine ⟨boxes.claims.deliveries ++ boxes.actions.deliveries ++ before, [], ?_⟩
    simp [Mailboxes.deliveries, Mailboxes.post, h]

end Mailboxes

namespace Live

variable {live : Live}

def HasRoom (live : Live) : Prop := ∀ boxes, live.mailboxes = some boxes → boxes.HaveRoom

/-- An event that comes now is applied when the session next looks what arrived. -/
def Applies (live : Live) : Prop :=
  ∀ (s : Session) (event : Event), ∃ before after, s.receiveAll (live.publish event).take.1 = do
    s.receiveAll before
    s.applyEvent event
    s.receiveAll after

/-- With room, and subscribed, the event that comes next is applied. -/
theorem HasRoom.applies (room : live.HasRoom) (subscribed : live.isSubscribed = true) :
    live.Applies := by
  intro s event
  obtain ⟨boxes, hboxes⟩ := Option.isSome_iff_exists.mp subscribed
  obtain ⟨before, after, hdeliveries⟩ := (room boxes hboxes).deliveries_post event
  refine ⟨before, after, ?_⟩
  have htaken : (live.publish event).take.1 = before ++ .message event :: after := by
    rw [← hdeliveries]
    simp [publish, take, hboxes]
  rw [htaken, Session.receiveAll_append]
  rfl

theorem isSubscribed_subscribe (live : Live) : live.subscribe.1.isSubscribed = true := by
  unfold subscribe
  split
  · assumption
  · rfl

/-- A message leaves the subscription as it is. -/
@[simp]
theorem isSubscribed_publish (live : Live) (event : Event) :
    (live.publish event).isSubscribed = live.isSubscribed :=
  Option.isSome_map

@[simp]
theorem isSubscribed_take (live : Live) : live.take.2.isSubscribed = live.isSubscribed := by
  unfold take isSubscribed
  cases hboxes : live.mailboxes <;> simp [hboxes]

theorem HasRoom.subscribe (room : live.HasRoom) : live.subscribe.1.HasRoom := by
  unfold Live.subscribe
  split
  · exact room
  · intro boxes hboxes
    obtain rfl := Option.some.inj hboxes
    exact Mailboxes.haveRoom_create live.capacity

theorem HasRoom.publish (room : live.HasRoom) (event : Event) : (live.publish event).HasRoom := by
  intro boxes hboxes
  obtain ⟨before, hbefore, rfl⟩ := Option.map_eq_some_iff.mp hboxes
  exact (room before hbefore).post event

theorem HasRoom.take (room : live.HasRoom) : live.take.2.HasRoom := by
  unfold Live.take
  split
  · rename_i before hbefore
    intro boxes hboxes
    obtain rfl := Option.some.inj hboxes
    exact (room before hbefore).emptied
  · exact room

/-- A subscription and those who hold on to it, each with whether they came after it was last ended
outright. -/
structure Held where
  live : Live
  holders : List Bool

/-- What happens to a subscription. -/
inductive Move where
  | subscribe
  | unsubscribe
  | hold
  /-- One of those who hold on lets go. -/
  | letGo (holder : Nat)
  | publish (event : Event)
  /-- The session looks what arrived. -/
  | take

namespace Held

variable {h : Held} {move : Move}

def step (h : Held) : Move → Held
  | .subscribe => { h with live := h.live.subscribe.1 }
  | .unsubscribe => ⟨h.live.unsubscribe.1, h.holders.map fun _ ↦ false⟩
  | .hold => ⟨h.live.hold, h.holders ++ [true]⟩
  | .letGo holder =>
    if holder < h.holders.length then ⟨h.live.letGo, h.holders.eraseIdx holder⟩ else h
  | .publish event => { h with live := h.live.publish event }
  | .take => { h with live := h.live.take.2 }

def run (h : Held) (moves : List Move) : Held := moves.foldl step h

/-- Nobody has subscribed yet. -/
def start (capacity : Nat) : Held := ⟨.create capacity, []⟩

/-- If somebody holds on since the subscription was last ended outright, it is there and the events
that come are applied. -/
def Lasts (h : Held) : Prop :=
  true ∈ h.holders → h.live.isSubscribed = true ∧ h.live.Applies

/-- Somebody lets go while somebody else holds on. -/
def LeavesOther (h : Held) : Move → Prop
  | .letGo holder => holder < h.holders.length ∧ true ∈ h.holders.eraseIdx holder
  | _ => False

/-- No move takes the room away. -/
theorem hasRoom_step (room : h.live.HasRoom) (move : Move) : (h.step move).live.HasRoom := by
  cases move with
  | subscribe | hold => exact room.subscribe
  | unsubscribe => exact nofun
  | letGo holder =>
    unfold step
    dsimp only
    split
    · exact nofun
    · exact room
  | publish event => exact room.publish event
  | take => exact room.take

theorem hasRoom_run (room : h.live.HasRoom) (moves : List Move) : (h.run moves).live.HasRoom := by
  induction moves generalizing h with
  | nil => exact room
  | cons move rest ih => exact ih (hasRoom_step room move)

/-- With room, to last is to be subscribed while somebody holds on. -/
theorem lasts_iff (room : h.live.HasRoom) :
    h.Lasts ↔ (true ∈ h.holders → h.live.isSubscribed = true) :=
  ⟨fun lasts held ↦ (lasts held).1,
    fun subscribed held ↦ ⟨subscribed held, room.applies (subscribed held)⟩⟩

/-- Letting go is all that ends a subscription which somebody else holds on to. -/
theorem lasts_step_iff (room : h.live.HasRoom) (lasts : h.Lasts) :
    (h.step move).Lasts ↔ ¬ h.LeavesOther move := by
  rw [lasts_iff (hasRoom_step room move)]
  have subscribed := (lasts_iff room).mp lasts
  cases move with
  | subscribe | hold => simp [step, LeavesOther, hold, isSubscribed_subscribe]
  | unsubscribe => simp [step, LeavesOther]
  | letGo holder =>
    by_cases hheld : holder < h.holders.length
    · simp [step, LeavesOther, hheld, letGo, unsubscribe, isSubscribed]
    · simpa [step, LeavesOther, hheld] using subscribed
  | publish event | take => simpa [step, LeavesOther] using subscribed

/-- A subscription lasts as long as somebody holds on to it if and only if nobody ever lets go while
somebody else holds on. -/
theorem lasts_throughout_iff (capacity : Nat) (moves : List Move) :
    (∀ before, before <+: moves → ((start capacity).run before).Lasts) ↔
      ∀ before move, before ++ [move] <+: moves →
        ¬ ((start capacity).run before).LeavesOther move := by
  have room : (start capacity).live.HasRoom := nofun
  have hthroughout := throughout_iff step (fun h ↦ h.live.HasRoom ∧ h.Lasts) LeavesOther
    (fun h move ⟨room, lasts⟩ ↦
      (and_iff_right (hasRoom_step room move)).trans (lasts_step_iff room lasts))
    (s := start capacity) ⟨room, nofun⟩ moves
  refine Iff.trans ?_ hthroughout
  exact forall₂_congr fun before _ ↦ (and_iff_right (hasRoom_run room before)).symm

/-- Of two who hold on, the second lets go. -/
theorem other_left_unsubscribed :
    let h := (start defaultCapacity).run [.hold, .hold, .letGo 1]
    h.holders = [true] ∧ h.live.isSubscribed = false ∧ ¬ h.Lasts ∧
      ∀ event, (h.live.publish event).take.1 = [] := by
  intro h
  have hended : h.live.isSubscribed = false := rfl
  refine ⟨rfl, hended, fun lasts ↦ ?_, fun _ ↦ rfl⟩
  simpa [hended] using (lasts List.mem_cons_self).1

end Held

end Live

end Moderation
