/-!
# Mailboxes

A mailbox holds what its owner has not taken out yet. When it is full, the oldest message makes
room for the new one, and the owner learns how many were lost before anything else.
-/

namespace Moderation

structure Mailbox (α : Type) where
  /-- The greatest number of messages that wait. -/
  capacity : Nat
  /-- The messages that wait, the oldest first. -/
  waiting : List α
  /-- How many were lost since the last look. -/
  missed : Nat
deriving Repr

namespace Mailbox

variable {α : Type}

/-- What the owner of a mailbox finds in it. -/
inductive Delivery (α : Type) where
  | message (value : α)
  | missed (count : Nat)
deriving Repr

/-- An empty mailbox for a number of messages, which is rounded up to a power of two. -/
def create (capacity : Nat) : Mailbox α := ⟨capacity.nextPowerOfTwo, [], 0⟩

def post (box : Mailbox α) (message : α) : Mailbox α :=
  let waiting := box.waiting ++ [message]
  let excess := waiting.length - box.capacity
  { box with waiting := waiting.drop excess, missed := box.missed + excess }

def postAll (box : Mailbox α) (messages : List α) : Mailbox α := messages.foldl post box

/-- Everything that is to be found, the loss first. -/
def deliveries (box : Mailbox α) : List (Delivery α) :=
  (if box.missed = 0 then [] else [.missed box.missed]) ++ box.waiting.map .message

def emptied (box : Mailbox α) : Mailbox α := { box with waiting := [], missed := 0 }

end Mailbox

end Moderation
