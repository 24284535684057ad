import Moderation.Json
import Moderation.Text.Unsigned

/-!
# Plain YAML scalars

What a text without quotes stands for: null, a truth value, an integer in one of four bases, a
real number, or itself. A sign may stand before an integer of any base, but several digits that
begin with a zero are no number. A tag may say which of these a scalar is.
-/

namespace Moderation.Yaml

def isNull (text : String) : Bool := text ∈ ["null", "Null", "NULL", "~"]

def bool? (text : String) : Option Bool :=
  if text ∈ ["true", "True", "TRUE"] then some true
  else if text ∈ ["false", "False", "FALSE"] then some false
  else none

/-- The value of a digit in a base up to sixteen. -/
def digitIn? (base : Nat) (c : Char) : Option Nat :=
  let value :=
    if '0' ≤ c ∧ c ≤ '9' then c.toNat - '0'.toNat
    else if 'a' ≤ c ∧ c ≤ 'f' then c.toNat - 'a'.toNat + 10
    else if 'A' ≤ c ∧ c ≤ 'F' then c.toNat - 'A'.toNat + 10
    else base
  if value < base then some value else none

/-- One or more digits of a base. -/
def natural? (base : Nat) : List Char → Option Nat
  | [] => none
  | cs => cs.foldlM (fun n c ↦ (digitIn? base c).map (n * base + ·)) 0

def dropSign : List Char → List Char
  | '+' :: rest => rest
  | '-' :: rest => rest
  | cs => cs

/-- Several digits with a zero before them. -/
def isPaddedDigits (cs : List Char) : Bool :=
  match dropSign cs with
  | '0' :: c :: rest => (c :: rest).all fun c ↦ '0' ≤ c ∧ c ≤ '9'
  | _ => false

/-- The digits after the sign, with the mark of their base. -/
def magnitude? : List Char → Option Nat
  | '0' :: 'x' :: rest => natural? 16 rest
  | '0' :: 'o' :: rest => natural? 8 rest
  | '0' :: 'b' :: rest => natural? 2 rest
  | cs => natural? 10 cs

/-- An integer without a minus sign. -/
def natural10? (text : String) : Option Nat :=
  let cs := text.toList
  if isPaddedDigits cs then none
  else match cs with
    | '+' :: rest => magnitude? rest
    | cs => magnitude? cs

/-- An integer with a minus sign. -/
def negative? (text : String) : Option Nat :=
  let cs := text.toList
  if isPaddedDigits cs then none
  else match cs with
    | '-' :: rest => magnitude? rest
    | _ => none

/-- An unsigned 64-bit integer. -/
def uint64? (text : String) : Option UInt64 :=
  (natural10? text).bind fun n ↦ if n < UInt64.size then some (UInt64.ofNat n) else none

/-- A 64-bit integer, signed or not. -/
def integer? (text : String) : Option Int :=
  match natural10? text, negative? text with
  | some n, _ => if n < UInt64.size then some n else none
  | none, some n => if n ≤ twoTo 63 then some (-n) else none
  | none, none => none

def splitDigits (cs : List Char) : List Char × List Char :=
  cs.span fun c ↦ '0' ≤ c ∧ c ≤ '9'

/-- An exponent with at least one digit, or none at all. -/
def exponent? : List Char → Option Int
  | [] => some 0
  | c :: rest =>
    if c = 'e' ∨ c = 'E' then
      match rest with
      | '-' :: ds => (natural? 10 ds).map fun n ↦ -(n : Int)
      | '+' :: ds => (natural? 10 ds).map fun n ↦ (n : Int)
      | ds => (natural? 10 ds).map fun n ↦ (n : Int)
    else none

/-- The double nearest to `digits * 10 ^ exponent`. Without the zeros before them the digits tell
the power of ten of the number, which is out of range beyond 310 and rounds to zero below -330. -/
def nearest? (negative : Bool) (digits : List Char) (exponent : Int) : Option Binary64 := do
  let n ← natural? 10 digits
  let places : Int := (digits.dropWhile (· == '0')).length + exponent
  if n = 0 ∨ places < -330 then some (Binary64.zero negative)
  else if 310 < places then none
  else if 0 ≤ exponent then Binary64.ofRatio? negative (n * tenTo exponent.natAbs) 1
  else Binary64.ofRatio? negative n (tenTo exponent.natAbs)

/-- A finite real number: digits before or after a point, and an exponent. -/
def real? (text : String) : Option Binary64 := do
  let cs := text.toList
  let negative := cs.head? == some '-'
  let (whole, rest) := splitDigits (dropSign cs)
  let (fraction, rest) := match rest with
    | '.' :: rest => splitDigits rest
    | rest => ([], rest)
  let e ← exponent? rest
  nearest? negative (whole ++ fraction) (e - fraction.length)

/-- The numbers beyond the finite ones, which have no value here. -/
def isNonFinite (text : String) : Bool :=
  text ∈ [".inf", ".Inf", ".INF", "+.inf", "+.Inf", "+.INF", "-.inf", "-.Inf", "-.INF",
    ".nan", ".NaN", ".NAN"]

/-- The value of a plain scalar, and nothing for an integer beyond the 64-bit range and within
the 128-bit one. -/
def value? (text : String) : Option Json :=
  if text.isEmpty || isNull text then some .null
  else if let some b := bool? text then some (.bool b)
  else if let some n := natural10? text then
    if n < UInt64.size then some (.number (.integer n))
    else if n < twoTo 128 then none
    else some (((real? text).map fun x ↦ .number (.real x)).getD (.string text))
  else if let some n := negative? text then
    if n ≤ twoTo 63 then some (.number (.integer (-n)))
    else if n ≤ twoTo 127 then none
    else some (((real? text).map fun x ↦ .number (.real x)).getD (.string text))
  else if isPaddedDigits text.toList then some (.string text)
  else if isNonFinite text then some .null
  else some (((real? text).map fun x ↦ .number (.real x)).getD (.string text))

def nullTag : String := "tag:yaml.org,2002:null"

def boolTag : String := "tag:yaml.org,2002:bool"

def integerTag : String := "tag:yaml.org,2002:int"

def realTag : String := "tag:yaml.org,2002:float"

/-- The name in a tag that begins with an exclamation mark, which is a name by itself. -/
def localName? (tag : String) : Option String :=
  match tag.toList with
  | ['!'] => some "!"
  | '!' :: name => some (String.ofList name)
  | _ => none

/-- The value of a scalar with a tag. It is a text with any tag that is unknown, but no value with
one of a local name. -/
def taggedValue? (tag text : String) : Option Json :=
  if tag = nullTag then if isNull text then some .null else none
  else if tag = boolTag then (bool? text).map .bool
  else if tag = integerTag then (integer? text).map fun n ↦ .number (.integer n)
  else if tag = realTag then
    if isNonFinite text then some .null else (real? text).map fun x ↦ .number (.real x)
  else if (localName? tag).isSome then none
  else some (.string text)

end Moderation.Yaml
