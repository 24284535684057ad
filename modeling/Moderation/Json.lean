import Std.Data.ExtTreeMap
import Moderation.Number.Binary64

/-!
# JSON values

A value keeps integers exact and apart from binary64 numbers. The members of an object form a
list: `normalize` puts them in the order of their names and lets the last of equal names win,
which is the form every value read from a text has. `Fields` is an object seen as a finite map.
-/

namespace Moderation

/-- An integer of the signed or unsigned 64-bit range, or a finite binary64 number. -/
inductive Number where
  | integer (value : Int)
  | real (value : Binary64)
deriving DecidableEq, Repr

namespace Number

def isZero : Number → Bool
  | .integer n => n == 0
  | .real x => x.isZero

/-- The value as an unsigned 64-bit integer; a real number never is one, even when integral. -/
def toUInt64? : Number → Option UInt64
  | .integer n => if 0 ≤ n ∧ n < UInt64.size then some (UInt64.ofNat n.toNat) else none
  | .real _ => none

/-- Equality of numbers of one kind. -/
def same : Number → Number → Bool
  | .integer m, .integer n => m == n
  | .real x, .real y => x.same y
  | _, _ => false

theorem same_refl (n : Number) : n.same n = true := by
  cases n <;> simp [same, Binary64.same_refl]

end Number

inductive Json where
  | null
  | bool (value : Bool)
  | number (value : Number)
  | string (value : String)
  | array (items : List Json)
  | object (members : List (String × Json))
deriving Repr

/-- The members of an object as a map from their names, in the order of the names. -/
abbrev Fields := Std.ExtTreeMap String Json

namespace Fields

/-- The map of a list of members; the last of equal names wins. -/
def ofMembers (members : List (String × Json)) : Fields := Std.ExtTreeMap.ofList members

/-- The members in the order of their names. -/
def members (fields : Fields) : List (String × Json) := fields.toList

/-- `fields` with every entry of `upper`, which wins on a common name. -/
def overlay (fields upper : Fields) : Fields :=
  upper.members.foldl (fun acc (name, value) ↦ acc.insert name value) fields

end Fields

namespace Json

instance : Inhabited Json := ⟨null⟩

def ofNat (n : Nat) : Json := number (.integer n)

def ofUInt64 (n : UInt64) : Json := ofNat n.toNat

def ofFields (fields : Fields) : Json := object fields.members

/-- The value, or `null` for none. -/
def ofOption {α : Type} (encode : α → Json) : Option α → Json
  | none => null
  | some a => encode a

/-- A member of an object that is left out for none. -/
def memberOf {α : Type} (name : String) (encode : α → Json) (value : Option α) :
    List (String × Json) :=
  (value.map fun a ↦ (name, encode a)).toList

def asString? : Json → Option String
  | string s => some s
  | _ => none

def asBool? : Json → Option Bool
  | bool b => some b
  | _ => none

def asUInt64? : Json → Option UInt64
  | number n => n.toUInt64?
  | _ => none

/-- Whether a condition takes the value for true: not `null`, not `false`, not a zero and not the
empty string. -/
def isTruthy : Json → Bool
  | null => false
  | bool b => b
  | number n => !n.isZero
  | string s => !s.isEmpty
  | array _ => true
  | object _ => true

mutual

/-- The value with every object's members in the order of their names, the last of equal names
kept. -/
def normalize : Json → Json
  | null => null
  | bool b => bool b
  | number n => number n
  | string s => string s
  | array items => array (normalizeItems items)
  | object members => ofFields (Fields.ofMembers (normalizeMembers members))

def normalizeItems : List Json → List Json
  | [] => []
  | item :: rest => normalize item :: normalizeItems rest

def normalizeMembers : List (String × Json) → List (String × Json)
  | [] => []
  | (name, value) :: rest => (name, normalize value) :: normalizeMembers rest

end

mutual

/-- Equality of values, the two zeros of the reals taken as one number. -/
def same : Json → Json → Bool
  | null, null => true
  | bool a, bool b => a == b
  | number m, number n => m.same n
  | string s, string t => s == t
  | array xs, array ys => sameItems xs ys
  | object xs, object ys => sameMembers xs ys
  | _, _ => false

def sameItems : List Json → List Json → Bool
  | [], [] => true
  | x :: xs, y :: ys => same x y && sameItems xs ys
  | _, _ => false

def sameMembers : List (String × Json) → List (String × Json) → Bool
  | [], [] => true
  | (k, x) :: xs, (l, y) :: ys => k == l && same x y && sameMembers xs ys
  | _, _ => false

end

mutual

theorem same_refl : ∀ value : Json, value.same value = true
  | null => rfl
  | bool b => by simp [same]
  | number n => by simp [same, Number.same_refl]
  | string s => by simp [same]
  | array items => by simp [same, sameItems_refl items]
  | object members => by simp [same, sameMembers_refl members]

theorem sameItems_refl : ∀ items : List Json, sameItems items items = true
  | [] => rfl
  | item :: rest => by simp [sameItems, same_refl item, sameItems_refl rest]

theorem sameMembers_refl : ∀ members : List (String × Json), sameMembers members members = true
  | [] => rfl
  | (_, value) :: rest => by simp [sameMembers, same_refl value, sameMembers_refl rest]

end

end Json

/-- Equality of objects as maps, value by value. -/
def Fields.same (a b : Fields) : Bool := Json.sameMembers a.members b.members

theorem Fields.same_refl (fields : Fields) : fields.same fields = true :=
  Json.sameMembers_refl _

end Moderation
