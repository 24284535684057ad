import Moderation.Document
import Moderation.Json.Numeral
import Moderation.Yaml.Scalar

/-!
# Decoding documents

A decoder reads a document as a value of one type. It goes through the document in the order of
the text and stops at the first fault, which is either of the text or of the value. How deep
lists and mappings may lie in each other is bounded by a budget that every level uses up; what
nobody asks for is passed over without a bound.
-/

namespace Moderation

inductive DecodeFault where
  /-- The text is not of its format. -/
  | malformed
  /-- The text is fine and says something of another type. -/
  | mismatched
deriving DecidableEq, Repr

/-- Reads a document with a number of levels left. -/
abbrev Decoder (α : Type) := Nat → Document → Except DecodeFault α

namespace Decoder

/-- The fault of a document that is none of the wanted kind: its own, if it has one in front. -/
def refuse {α : Type} : Document → Except DecodeFault α
  | .broken => .error .malformed
  | .text none => .error .malformed
  | .number numeral =>
    if numeral.value?.isNone then .error .malformed else .error .mismatched
  | _ => .error .mismatched

/-- One level less, if there is one. -/
def descend : Nat → Except DecodeFault Nat
  | 0 => .error .malformed
  | levels + 1 => .ok levels

/-- Passes over a document that nobody asks for. -/
def skip (document : Document) : Except DecodeFault Unit :=
  if document.sound then .ok () else .error .malformed

def checkEnding : Ending → Except DecodeFault Unit
  | .missing => .error .malformed
  | _ => .ok ()

def bool : Decoder Bool := fun _ document ↦
  match document.untagged with
  | .bool b => .ok b
  | .plain text => match Yaml.bool? text with
    | some b => .ok b
    | none => .error .mismatched
  | document => refuse document

def string : Decoder String := fun _ document ↦
  match document.untagged with
  | .text (some s) => .ok s
  | .plain text => .ok text
  | document => refuse document

/-- An integer written without fraction and exponent. -/
def uint64 : Decoder UInt64 := fun _ document ↦
  match document.untagged with
  | .number numeral => match numeral.value? with
    | none => .error .malformed
    | some n => match n.toUInt64? with
      | some u => .ok u
      | none => .error .mismatched
  | .plain text => match Yaml.uint64? text with
    | some u => .ok u
    | none => .error .mismatched
  | document => refuse document

/-- A value or null. A plain scalar that is tagged as null must be null. -/
def optional {α : Type} (decode : Decoder α) : Decoder (Option α) := fun levels document ↦
  match document with
  | .null => .ok none
  | .plain text =>
    if text.isEmpty || Yaml.isNull text then .ok none
    else (decode levels (.plain text)).map some
  | .tagged tag (.plain text) =>
    if tag = Yaml.nullTag then if Yaml.isNull text then .ok none else .error .mismatched
    else (decode levels (.tagged tag (.plain text))).map some
  | document => (decode levels document).map some

/-- A list, or an empty plain scalar. -/
def list {α : Type} (decode : Decoder α) : Decoder (List α) := fun levels document ↦
  match document.untagged with
  | .list items ending => do
    let levels ← descend levels
    let values ← items.mapM (decode levels)
    checkEnding ending
    pure values
  | .plain "" => .ok []
  | document => refuse document

/-- The members of a mapping with texts for keys, or of an empty plain scalar. -/
def members {α : Type} (decode : Decoder α) : Decoder (List (String × α)) := fun levels document ↦
  match document.untagged with
  | .mapping entries ending => do
    let levels ← descend levels
    let values ← entries.mapM fun (key, value) ↦ do
      let name ← string levels key
      let value ← decode levels value
      pure (name, value)
    checkEnding ending
    pure values
  | .plain "" => .ok []
  | document => refuse document

/-- A finite map; the last of equal keys wins. -/
def map {α : Type} (decode : Decoder α) : Decoder (Std.ExtTreeMap String α) :=
  fun levels document ↦ (members decode levels document).map fun entries ↦
    Std.ExtTreeMap.ofList entries

def named {α : Type} (ofName? : String → Option α) (name : String) : Except DecodeFault α :=
  match ofName? name with
  | some value => .ok value
  | none => .error .mismatched

/-- One of a list of names: alone, as the only key of a mapping to null, or in a tag before null. -/
def choice {α : Type} (ofName? : String → Option α) : Decoder α := fun levels document ↦
  match document with
  | .text (some name) | .plain name => named ofName? name
  | .mapping ((.text (some name), argument) :: rest) .bracket => do
    let _ ← descend levels
    match ofName? name, argument, rest with
    | none, _, _ => .error .mismatched
    | some value, .null, [] => .ok value
    | some _, .null, _ => .error .malformed
    | some _, argument, _ => refuse argument
  | .tagged tag document => match Yaml.localName? tag, document with
    | some name, .plain text =>
      if text.isEmpty || Yaml.isNull text then named ofName? name else .error .mismatched
    | none, .plain name => named ofName? name
    | none, .text (some name) => named ofName? name
    | _, _ => .error .mismatched
  | document => refuse document

/-- The key of a member of a free-form object: a text that is no other scalar. -/
def memberName : Document → Except DecodeFault String
  | .text (some s) => .ok s
  | .plain text => match Yaml.value? text with
    | some (.string s) => .ok s
    | _ => .error .mismatched
  | .tagged tag (.text (some text)) | .tagged tag (.plain text) =>
    match Yaml.taggedValue? tag text with
    | some (.string s) => .ok s
    | _ => .error .mismatched
  | document => refuse document

mutual

/-- Any value, with every object's members in the order of their names. -/
def json (levels : Nat) : Document → Except DecodeFault Json
  | .null => .ok .null
  | .bool b => .ok (.bool b)
  | .number numeral => match numeral.value? with
    | some n => .ok (.number n)
    | none => .error .malformed
  | .text (some s) => .ok (.string s)
  | .text none => .error .malformed
  | .plain text => match Yaml.value? text with
    | some value => .ok value
    | none => .error .mismatched
  | .list items ending => match levels with
    | 0 => .error .malformed
    | levels + 1 => do
      let values ← jsonItems levels items
      checkEnding ending
      pure (.array values)
  | .mapping entries ending => match levels with
    | 0 => .error .malformed
    | levels + 1 => do
      let values ← jsonMembers levels entries
      checkEnding ending
      pure (.ofFields (Fields.ofMembers values))
  | .tagged tag (.text (some text)) | .tagged tag (.plain text) =>
    match Yaml.taggedValue? tag text with
    | some value => .ok value
    | none => .error .mismatched
  | .tagged tag document =>
    if (Yaml.localName? tag).isSome then .error .mismatched else json levels document
  | .broken => .error .malformed

def jsonItems (levels : Nat) : List Document → Except DecodeFault (List Json)
  | [] => .ok []
  | item :: rest => do
    let value ← json levels item
    let values ← jsonItems levels rest
    pure (value :: values)

def jsonMembers (levels : Nat) :
    List (Document × Document) → Except DecodeFault (List (String × Json))
  | [] => .ok []
  | (key, item) :: rest => do
    let name ← memberName key
    let value ← json levels item
    let values ← jsonMembers levels rest
    pure ((name, value) :: values)

end

/-- An object as a map from its names. -/
def fields : Decoder Fields := map json

end Decoder

end Moderation
