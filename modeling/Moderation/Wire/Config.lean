import Moderation.Config
import Moderation.Document.Text
import Moderation.Wire.Reviewable

/-!
# Saved configurations

A configuration file is a record of three members, each of which may be left out.
-/

namespace Moderation

namespace Config.File

inductive Key where
  | mode
  | forms
  | parameters
deriving DecidableEq

abbrev record : Record where
  Key := Key
  keys := [.mode, .forms, .parameters]
  name
    | .mode => "claim_mode"
    | .forms => "action_workflows"
    | .parameters => "type_params"
  Value
    | .mode => ClaimMode
    | .forms => Std.ExtTreeMap String String
    | .parameters => Std.ExtTreeMap String (List String)
  read
    | .mode => Decoder.claimMode
    | .forms => Decoder.map Decoder.string
    | .parameters => Decoder.map (Decoder.list Decoder.string)

def decode : Decoder Config.File := fun levels d ↦ do
  let draft ← record.decode levels d
  pure {
    mode := (draft .mode).getD .optional
    forms := (draft .forms).getD ∅
    parameters := (draft .parameters).getD ∅ }

def toJson (file : Config.File) : Json :=
  .object [
    ("claim_mode", file.mode.toJson),
    ("action_workflows", .object (file.forms.toList.map fun (k, v) ↦ (k, .string v))),
    ("type_params",
      .object (file.parameters.toList.map fun (k, names) ↦ (k, .array (names.map .string))))]

end Config.File

namespace Config

/-- Why a configuration text gives no configuration. -/
inductive LoadFault where
  | malformed
  | problem (cause : Problem)
deriving DecidableEq, Repr

/-- The configuration that a YAML text describes. -/
def ofYaml (text : String) : Except LoadFault Config :=
  match Yaml.decode? Config.File.decode text with
  | none => .error .malformed
  | some file => (ofFile file).mapError .problem

end Config

end Moderation
