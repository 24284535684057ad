import Moderation.Result
import Moderation.Wire.Reviewable

/-!
# Results on the wire

A result leaves out what it has nothing to say about, and travels in an envelope.
-/

namespace Moderation.PerformResult

inductive Key where
  | success
  | status
  | version
  | reviewable
  | removed
  | count
  | unseen
deriving DecidableEq

abbrev record (now : Time) : Record where
  Key := Key
  keys := [.success, .status, .version, .reviewable, .removed, .count, .unseen]
  name
    | .success => "success"
    | .status => "transition_to"
    | .version => "version"
    | .reviewable => "reviewable"
    | .removed => "remove_reviewable_ids"
    | .count => "reviewable_count"
    | .unseen => "unseen_reviewable_count"
  Value
    | .success => Bool
    | .status => Option Status
    | .version => Option UInt64
    | .reviewable => Option Reviewable
    | .removed => Option (List ReviewableId)
    | .count => Option UInt64
    | .unseen => Option UInt64
  read
    | .success => Decoder.bool
    | .status => Decoder.optional Decoder.status
    | .version => Decoder.optional Decoder.uint64
    | .reviewable => Decoder.optional (Reviewable.decode now)
    | .removed => Decoder.optional (Decoder.list Decoder.reviewableId)
    | .count => Decoder.optional Decoder.uint64
    | .unseen => Decoder.optional Decoder.uint64

def ofDraft {now : Time} (draft : (record now).Draft) : PerformResult where
  success := (draft .success).getD false
  status := (draft .status).join
  version := (draft .version).join
  reviewable := (draft .reviewable).join
  removed := (draft .removed).join
  count := (draft .count).join
  unseen := (draft .unseen).join

def decode (now : Time) : Decoder PerformResult := fun levels d ↦ do
  pure (ofDraft (← (record now).decode levels d))

def toJson (result : PerformResult) : Json :=
  .object (
    ("success", .bool result.success) ::
    (Json.memberOf "transition_to" Status.toJson result.status ++
      Json.memberOf "version" .ofUInt64 result.version ++
      Json.memberOf "reviewable" Reviewable.toJson result.reviewable ++
      Json.memberOf "remove_reviewable_ids" (fun ids ↦ .array (ids.map ReviewableId.toJson))
        result.removed ++
      Json.memberOf "reviewable_count" .ofUInt64 result.count ++
      Json.memberOf "unseen_reviewable_count" .ofUInt64 result.unseen))

/-- An envelope with one member. -/
inductive EnvelopeKey where
  | content
deriving DecidableEq

abbrev envelope (now : Time) : Record where
  Key := EnvelopeKey
  keys := [.content]
  name := fun _ ↦ "reviewable_perform_result"
  Value := fun _ ↦ PerformResult
  read := fun _ ↦ decode now

def decodeEnvelope (now : Time) : Decoder PerformResult := fun levels d ↦ do
  DecodeFault.require ((← (envelope now).decode levels d) .content)

def toEnvelope (result : PerformResult) : Json :=
  .object [("reviewable_perform_result", result.toJson)]

end Moderation.PerformResult
