import Moderation.Document.Decoder

/-!
# Members of mappings

Where a mapping is not read as a record, its members are looked up by name, the first of a name
counting. A member that may be missing may be null as well.
-/

namespace Moderation

namespace Document

/-- The members whose keys are quoted texts. -/
def namedMembers : Document → List (String × Document)
  | .mapping members _ => members.filterMap fun (key, value) ↦ match key with
    | .text (some name) => some (name, value)
    | _ => none
  | _ => []

def member? (d : Document) (name : String) : Option Document := d.namedMembers.lookup name

/-- The items of a list. -/
def items : Document → List Document
  | .list items _ => items
  | _ => []

/-- The items of a member, none if there is no such list. -/
def itemsAt (d : Document) (name : String) : List Document := ((d.member? name).map items).getD []

/-- A member that is neither missing nor null. -/
def present? (d : Document) (name : String) : Option Document :=
  match d.member? name with
  | some .null => none
  | found => found

end Document

namespace Decoder

variable {α β : Type}

/-- A member that has to be there. -/
def required (name : String) (decode : Decoder α) : Decoder α := fun levels d ↦
  match d.member? name with
  | some value => decode levels value
  | none => .error .mismatched

def allowed (name : String) (decode : Decoder α) : Decoder (Option α) := fun levels d ↦
  match d.member? name with
  | some value => optional decode levels value
  | none => .ok none

def defaulted (name : String) (decode : Decoder α) (missing : α) : Decoder α := fun levels d ↦
  (allowed name decode levels d).map (·.getD missing)

/-- A list of two. -/
def pair (first : Decoder α) (second : Decoder β) : Decoder (α × β) := fun levels d ↦
  match d with
  | .list [a, b] _ => do pure (← first levels a, ← second levels b)
  | _ => .error .mismatched

end Decoder

end Moderation
