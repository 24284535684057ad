import Moderation.Claim

/-!
# Events

What the backend tells every session of: that the claim on a topic changed, that an action was
completed, or that events were lost and the queue has to be loaded anew.
-/

namespace Moderation

/-- The claim on a topic changed; without a user the topic is free. -/
structure ClaimTransfer where
  topic : TopicId
  user : Option User
  automatic : Option Bool
deriving DecidableEq, Repr

namespace ClaimTransfer

def taken (topic : TopicId) (claim : Claim) : ClaimTransfer :=
  ⟨topic, some claim.user, some claim.automatic⟩

def released (topic : TopicId) : ClaimTransfer := ⟨topic, none, none⟩

/-- The claim that the topic has now. -/
def claim (event : ClaimTransfer) : Option Claim :=
  event.user.map fun user ↦ ⟨user, event.automatic.getD false⟩

end ClaimTransfer

/-- Some reviewables are resolved. -/
structure ActionCompleted where
  removed : List ReviewableId
  count : Option UInt64
  unseen : Option UInt64
deriving DecidableEq, Repr

inductive Event where
  | claimTransfer (event : ClaimTransfer)
  | actionCompleted (event : ActionCompleted)
  | resync
deriving DecidableEq, Repr

namespace Event

def claimTransferChannel : String := "claim-transfer"

def actionCompletedChannel : String := "action-completed"

def resyncChannel : String := "resync"

def channel : Event → String
  | .claimTransfer _ => claimTransferChannel
  | .actionCompleted _ => actionCompletedChannel
  | .resync => resyncChannel

end Event

end Moderation
