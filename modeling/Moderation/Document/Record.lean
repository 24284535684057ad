import Moderation.Document.Decoder

/-!
# Records

A record has keys in the order of their declaration, each with a name and a kind of value. It is
read from a mapping, whose members may come in any order but not twice, or from a list of its
values by position. Reading gives a draft, which says for each key whether it was met and with
which value; what a missing key means is for the type that the draft is turned into.
-/

namespace Moderation

structure Record where
  Key : Type
  keys : List Key
  name : Key → String
  Value : Key → Type
  read : (key : Key) → Decoder (Value key)
  [decidable : DecidableEq Key]

namespace Record

variable (record : Record)

instance : DecidableEq record.Key := record.decidable

/-- The values met so far. -/
abbrev Draft := (key : record.Key) → Option (record.Value key)

def blank : record.Draft := fun _ ↦ none

/-- The draft with one more value. -/
def put (draft : record.Draft) (key : record.Key) (value : record.Value key) : record.Draft :=
  fun other ↦ if h : other = key then some (h ▸ value) else draft other

/-- The key with a name. -/
def key? (name : String) : Option record.Key := record.keys.find? (record.name · == name)

/-- Reads the members of a mapping one after another. What to do with a name that the record does
not have is told by `other`, which gathers a result of its own. -/
def readMembers {σ : Type} (other : Nat → σ → String → Document → Except DecodeFault σ)
    (levels : Nat) : List (Document × Document) → record.Draft → σ →
      Except DecodeFault (record.Draft × σ)
  | [], draft, rest => .ok (draft, rest)
  | (key, value) :: members, draft, rest => do
    let name ← Decoder.string levels key
    match record.key? name with
    | some key =>
      if (draft key).isSome then .error .mismatched
      else
        let value ← record.read key levels value
        readMembers other levels members (record.put draft key value) rest
    | none =>
      let rest ← other levels rest name value
      readMembers other levels members draft rest

/-- Reads values by position, for the keys from the first on. -/
def readItems (levels : Nat) : List record.Key → List Document → record.Draft →
    Except DecodeFault (record.Draft × List Document)
  | [], items, draft => .ok (draft, items)
  | _, [], draft => .ok (draft, [])
  | key :: keys, item :: items, draft => do
    let value ← record.read key levels item
    readItems levels keys items (record.put draft key value)

/-- A record that passes over names it does not have. -/
def decode : Decoder record.Draft := fun levels document ↦
  match document.untagged with
  | .mapping members ending => do
    let levels ← Decoder.descend levels
    let (draft, ()) ← record.readMembers (fun _ () _ value ↦ Decoder.skip value) levels members
      record.blank ()
    Decoder.checkEnding ending
    pure draft
  | .list items .layout => Decoder.refuse (.list items .layout)
  | .list items ending => do
    let levels ← Decoder.descend levels
    let (draft, left) ← record.readItems levels record.keys items record.blank
    if left.isEmpty then Decoder.checkEnding ending else .error .malformed
    pure draft
  | .plain "" => .ok record.blank
  | document => Decoder.refuse document

/-- A record that gathers the members it has no key for, and is never read by position. -/
def decodeOpen : Decoder (record.Draft × List (String × Json)) := fun levels document ↦
  match document.untagged with
  | .mapping members ending => do
    let levels ← Decoder.descend levels
    let (draft, others) ← record.readMembers
      (fun levels others name value ↦ do pure ((name, ← Decoder.json levels value) :: others))
      levels members record.blank []
    Decoder.checkEnding ending
    pure (draft, others.reverse)
  | .plain "" => .ok (record.blank, [])
  | document => Decoder.refuse document

end Record

/-- The value of a key that must be there. -/
def DecodeFault.require {α : Type} : Option α → Except DecodeFault α
  | some value => .ok value
  | none => .error .mismatched

end Moderation
