import Moderation.Document.Text
import Moderation.Event
import Moderation.Json.Printer
import Moderation.Wire.Reviewable

/-!
# Events on the wire

An event is the name of its channel with a payload in JSON. Reading one back asks the channel
first: an unknown channel has no event, and what comes on the channel for reloads does not
matter.
-/

namespace Moderation

namespace ClaimTransfer

inductive Key where
  | topic
  | user
  | automatic
deriving DecidableEq

abbrev record : Record where
  Key := Key
  keys := [.topic, .user, .automatic]
  name
    | .topic => "topic_id"
    | .user => "user"
    | .automatic => "automatic"
  Value
    | .topic => TopicId
    | .user => Option User
    | .automatic => Option Bool
  read
    | .topic => Decoder.topicId
    | .user => Decoder.optional User.decode
    | .automatic => Decoder.optional Decoder.bool

def decode : Decoder ClaimTransfer := fun levels d ↦ do
  let draft ← record.decode levels d
  let topic ← DecodeFault.require (draft .topic)
  pure { topic, user := (draft .user).join, automatic := (draft .automatic).join }

def toJson (event : ClaimTransfer) : Json :=
  .object [
    ("topic_id", event.topic.toJson),
    ("user", .ofOption User.toJson event.user),
    ("automatic", .ofOption .bool event.automatic)]

end ClaimTransfer

namespace ActionCompleted

inductive Key where
  | removed
  | count
  | unseen
deriving DecidableEq

abbrev record : Record where
  Key := Key
  keys := [.removed, .count, .unseen]
  name
    | .removed => "remove_reviewable_ids"
    | .count => "reviewable_count"
    | .unseen => "unseen_reviewable_count"
  Value
    | .removed => List ReviewableId
    | .count => Option UInt64
    | .unseen => Option UInt64
  read
    | .removed => Decoder.list Decoder.reviewableId
    | .count => Decoder.optional Decoder.uint64
    | .unseen => Decoder.optional Decoder.uint64

def decode : Decoder ActionCompleted := fun levels d ↦ do
  let draft ← record.decode levels d
  pure {
    removed := (draft .removed).getD []
    count := (draft .count).join
    unseen := (draft .unseen).join }

def toJson (event : ActionCompleted) : Json :=
  .object (
    ("remove_reviewable_ids", .array (event.removed.map ReviewableId.toJson)) ::
    (Json.memberOf "reviewable_count" .ofUInt64 event.count ++
      Json.memberOf "unseen_reviewable_count" .ofUInt64 event.unseen))

end ActionCompleted

namespace Event

def payload : Event → Json
  | .claimTransfer event => event.toJson
  | .actionCompleted event => event.toJson
  | .resync => .object []

def payloadText (event : Event) : String := event.payload.text

/-- The event on a channel; none on a channel that nobody knows. -/
def decode (channel payload : String) : Except DecodeFault (Option Event) :=
  if channel = claimTransferChannel then
    (Json.decode ClaimTransfer.decode payload).map fun event ↦ some (.claimTransfer event)
  else if channel = actionCompletedChannel then
    (Json.decode ActionCompleted.decode payload).map fun event ↦ some (.actionCompleted event)
  else if channel = resyncChannel then .ok (some .resync)
  else .ok none

end Event

end Moderation
