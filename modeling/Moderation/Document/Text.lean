import Moderation.Document.Decoder
import Moderation.Json.Reader
import Moderation.Yaml.Anchor

/-!
# Decoding texts

What a decoder makes of a text in JSON or YAML.
-/

namespace Moderation

/-- How many lists and objects of a JSON text may lie in each other. -/
def Json.depth : Nat := 127

/-- The value of a JSON text as a decoder reads it. A fault of the value counts before one in
what follows the value. -/
def Json.decode {α : Type} (decoder : Decoder α) (text : String) : Except DecodeFault α := do
  let (document, ended) := Json.document text.toList
  let value ← decoder depth document
  if ended then pure value else .error .malformed

/-- The value of a YAML text as a decoder reads it. -/
def Yaml.decode? {α : Type} (decoder : Decoder α) (text : String) : Option α :=
  (Yaml.document? text.toList).bind fun document ↦ (decoder depth document).toOption

end Moderation
