import Moderation.Mailbox
import Moderation.Session.Perform

/-!
# Live updates

A subscribed session has a mailbox for each channel of events. Events that arrive are applied to
the store; when some were lost, the store is loaded anew.
-/

namespace Moderation

namespace Store

/-- Gives everything in a topic the claim that it has now. -/
def applyClaimTransfer (s : Store) (event : ClaimTransfer) : Revision Nat :=
  s.setTopicClaim event.topic event.claim

/-- Takes the numbers over and drops what is resolved. -/
def applyActionCompleted (s : Store) (event : ActionCompleted) : Revision (List ReviewableId) :=
  let counted := s.applyCounts event.count event.unseen
  let removed := counted.store.remove event.removed
  { removed with changes := counted.changes ++ removed.changes }

end Store

namespace Session

/-- Loads the store anew; when that fails it stays as it is. -/
def resync (s : Session) : Task Unit := do
  let _ ← s.loadQueue

def applyEvent (s : Session) : Event → Task Unit
  | .claimTransfer event => do
    let _ ← Task.onStore (·.applyClaimTransfer event)
  | .actionCompleted event => do
    let _ ← Task.onStore (·.applyActionCompleted event)
  | .resync => s.resync

/-- Deals with what a mailbox holds. -/
def receive (s : Session) : Mailbox.Delivery Event → Task Unit
  | .message event => s.applyEvent event
  | .missed _ => s.resync

def receiveAll (s : Session) : List (Mailbox.Delivery Event) → Task Unit
  | [] => pure ()
  | delivery :: rest => do
    s.receive delivery
    s.receiveAll rest

end Session

/-- The mailboxes of a subscriber, one for each channel. -/
structure Mailboxes where
  claims : Mailbox Event
  actions : Mailbox Event
  resyncs : Mailbox Event

namespace Mailboxes

/-- Empty mailboxes; one request to load anew says as much as many. -/
def create (capacity : Nat) : Mailboxes := ⟨.create capacity, .create capacity, .create 1⟩

def post (boxes : Mailboxes) (event : Event) : Mailboxes :=
  match event with
  | .claimTransfer _ => { boxes with claims := boxes.claims.post event }
  | .actionCompleted _ => { boxes with actions := boxes.actions.post event }
  | .resync => { boxes with resyncs := boxes.resyncs.post event }

def deliveries (boxes : Mailboxes) : List (Mailbox.Delivery Event) :=
  boxes.claims.deliveries ++ boxes.actions.deliveries ++ boxes.resyncs.deliveries

def emptied (boxes : Mailboxes) : Mailboxes :=
  ⟨boxes.claims.emptied, boxes.actions.emptied, boxes.resyncs.emptied⟩

end Mailboxes

/-- The subscription of a session to the events. -/
structure Live where
  /-- The number of events of one channel that may wait. -/
  capacity : Nat
  mailboxes : Option Mailboxes

namespace Live

/-- The number of waiting events that a session allows on its own. -/
def defaultCapacity : Nat := 256

def create (capacity : Nat) : Live := ⟨capacity, none⟩

def isSubscribed (live : Live) : Bool := live.mailboxes.isSome

/-- Subscribes; the answer is whether there was no subscription. -/
def subscribe (live : Live) : Live × Bool :=
  if live.isSubscribed then (live, false)
  else ({ live with mailboxes := some (.create live.capacity) }, true)

/-- Ends the subscription; the answer is whether there was one. -/
def unsubscribe (live : Live) : Live × Bool :=
  ({ live with mailboxes := none }, live.isSubscribed)

/-- A subscription for as long as somebody holds on to it. -/
def hold (live : Live) : Live := live.subscribe.1

/-- Somebody lets go of a subscription, which ends it. -/
def letGo (live : Live) : Live := live.unsubscribe.1

/-- An event for everybody who is subscribed. -/
def publish (live : Live) (event : Event) : Live :=
  { live with mailboxes := live.mailboxes.map (·.post event) }

/-- What arrived, and the subscription with empty mailboxes. -/
def take (live : Live) : List (Mailbox.Delivery Event) × Live :=
  match live.mailboxes with
  | some boxes => (boxes.deliveries, { live with mailboxes := some boxes.emptied })
  | none => ([], live)

end Live

end Moderation
