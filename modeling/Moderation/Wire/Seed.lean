import Moderation.Queue
import Moderation.Wire.Config
import Moderation.Wire.Reviewable

/-!
# Seeds

What a queue is started with: the claim mode and the reviewables, each of which may be left out.
-/

namespace Moderation

structure Seed where
  mode : ClaimMode
  reviewables : List Reviewable

namespace Seed

inductive Key where
  | mode
  | reviewables
deriving DecidableEq

abbrev record (now : Time) : Record where
  Key := Key
  keys := [.mode, .reviewables]
  name
    | .mode => "claim_mode"
    | .reviewables => "reviewables"
  Value
    | .mode => ClaimMode
    | .reviewables => List Reviewable
  read
    | .mode => Decoder.claimMode
    | .reviewables => Decoder.list (Reviewable.decode now)

def decode (now : Time) : Decoder Seed := fun levels d ↦ do
  let draft ← (record now).decode levels d
  pure {
    mode := (draft .mode).getD .optional
    reviewables := (draft .reviewables).getD [] }

def toJson (seed : Seed) : Json :=
  .object [
    ("claim_mode", seed.mode.toJson),
    ("reviewables", .array (seed.reviewables.map Reviewable.toJson))]

/-- The seed in a YAML text. -/
def ofYaml? (now : Time) (text : String) : Option Seed := Yaml.decode? (decode now) text

def queue (seed : Seed) : Queue := Queue.ofSeed seed.mode seed.reviewables

end Seed

end Moderation
