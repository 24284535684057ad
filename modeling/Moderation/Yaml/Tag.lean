import Moderation.Text.Hex
import Moderation.Text.Utf8
import Moderation.Yaml.Cursor

/-!
# Tags, anchors and directives of YAML

A tag is written with a handle, which stands for the beginning of the tag, and the octets after it.
Directives before a document say for which version it is written and what the handles stand for.
-/

namespace Moderation.Yaml

/-- The characters of names. -/
def isNameChar (c : Char) : Bool := c.isAlphanum || c == '_' || c == '-'

/-- A tag as written: a handle, and the octets after what it stands for. -/
structure Tag where
  handle : List Char
  octets : List UInt8

/-- An exclamation mark, and a name between it and another one if there is one. -/
def tagHandle? : List Char → Option (List Char)
  | '!' :: rest =>
    let name := rest.takeWhile isNameChar
    if rest[name.length]? == some '!' then some ('!' :: name ++ ['!']) else some ('!' :: name)
  | _ => none

def isFullHandle (handle : List Char) : Bool := handle.length ≥ 2 && handle.getLast? == some '!'

/-- The characters that an octet of a tag may be written as; within angle brackets there are three
more. -/
def isTagChar (bracketed : Bool) (c : Char) : Bool :=
  isNameChar c || ";/?:@&=+$.!~*'()".toList.contains c || (bracketed && ",[]".toList.contains c)

/-- How many octets follow the first of a character. -/
def followers? (octet : UInt8) : Option Nat :=
  if octet < 0x80 then some 0
  else if octet &&& 0xe0 = 0xc0 then some 1
  else if octet &&& 0xf0 = 0xe0 then some 2
  else if octet &&& 0xf8 = 0xf0 then some 3
  else none

/-- The octets of a tag, with the number of characters that they take. An octet may be written with
a percent sign and two digits, and so must be all that follow the first of a character. The first
argument counts characters to be passed over, and the second the octets that must follow. -/
def tagOctets? (bracketed : Bool) : Nat → Nat → List Char → Option (List UInt8 × Nat)
  | pass + 1, due, _ :: rest =>
    (tagOctets? bracketed pass due rest).map fun (octets, count) ↦ (octets, count + 1)
  | 0, due, '%' :: rest => do
    let high ← rest[0]?.bind Text.hexValue?
    let low ← rest[1]?.bind Text.hexValue?
    let octet := UInt8.ofNat (high * 16 + low)
    let due ← match due with
      | 0 => followers? octet
      | due + 1 => if octet &&& 0xc0 = 0x80 then some due else none
    let (octets, count) ← tagOctets? bracketed 2 due rest
    pure (octet :: octets, count + 1)
  | 0, 0, c :: rest =>
    if isTagChar bracketed c then
      (tagOctets? bracketed 0 0 rest).map fun (octets, count) ↦
        (UInt8.ofNat c.toNat :: octets, count + 1)
    else some ([], 0)
  | 0, _ + 1, _ => none
  | _, 0, [] => some ([], 0)
  | _, _ + 1, [] => none

/-- Octets, of which there is at least one. -/
def Cursor.octets? (c : Cursor) (bracketed : Bool) : Option (List UInt8 × Cursor) := do
  let (octets, count) ← tagOctets? bracketed 0 0 c.rest
  if count = 0 then none else some (octets, c.skip count)

/-- A tag in angle brackets, with a full handle, or with an exclamation mark alone. -/
def Cursor.tagParts? (c : Cursor) : Option (Tag × Cursor) := do
  if c.rest[1]? == some '<' then
    let (octets, c) ← (c.skip 2).octets? true
    if c.head? == some '>' then some (⟨[], octets⟩, c.skip 1) else none
  else
    let handle ← tagHandle? c.rest
    if isFullHandle handle then
      let (octets, c) ← (c.skip handle.length).octets? false
      pure (⟨handle, octets⟩, c)
    else
      let (octets, count) ← tagOctets? false 0 0 (c.rest.drop 1)
      let octets : List UInt8 := octets
      pure (if octets.isEmpty then ⟨[], [0x21]⟩ else ⟨['!'], octets⟩, c.skip (1 + count))

/-- A tag, after which there is a gap or, inside brackets, a comma. -/
def Cursor.tag? (c : Cursor) (inFlow : Bool) : Option (Tag × Cursor) := do
  let (tag, c) ← c.tagParts?
  if endsWord c.head? || (inFlow && c.head? == some ',') then some (tag, c) else none

/-- The name of an anchor after its mark, which does not end before just any character. -/
def Cursor.anchor? (c : Cursor) : Option (String × Cursor) :=
  let name := (c.rest.drop 1).takeWhile isNameChar
  let c := c.skip (1 + name.length)
  if !name.isEmpty && (endsWord c.head? ||
      c.head?.any fun d ↦ ['?', ':', ',', ']', '\x7d', '%', '@', '\x60'].contains d) then
    some (String.ofList name, c)
  else none

inductive Directive where
  | version (major minor : Nat)
  /-- What a handle stands for. -/
  | tag (handle : List Char) (octets : List UInt8)

/-- A number of at most nine digits. -/
def Cursor.versionNumber? (c : Cursor) : Option (Nat × Cursor) :=
  let digits := c.rest.takeWhile Char.isDigit
  if digits.isEmpty || 9 < digits.length then none
  else some (digits.foldl (fun n d ↦ n * 10 + (d.toNat - '0'.toNat)) 0, c.skip digits.length)

/-- A directive after its percent sign, up to the end of its line. -/
def Cursor.directive? (c : Cursor) : Option (Directive × Cursor) := do
  let name := (c.rest.drop 1).takeWhile isNameChar
  let c := c.skip (1 + name.length)
  if !endsWord c.head? then none
  else
    let c := c.skipWhile isBlank
    let (directive, c) ← if name = ['Y', 'A', 'M', 'L'] then do
        let (major, c) ← c.versionNumber?
        if c.head? ≠ some '.' then none
        else
          let (minor, c) ← (c.skip 1).versionNumber?
          pure (Directive.version major minor, c)
      else if name = ['T', 'A', 'G'] then do
        let handle ← tagHandle? c.rest
        let c := c.skip handle.length
        if !(isFullHandle handle || handle.length = 1) || !c.head?.any isBlank then none
        else
          let (octets, c) ← (c.skipWhile isBlank).octets? true
          if endsWord c.head? then pure (Directive.tag handle octets, c) else none
      else none
    let c ← c.endLine?
    pure (directive, c)

/-- What the handles of a document stand for. -/
abbrev Handles := List (List Char × List UInt8)

/-- The handles that need no directive. -/
def standardHandles : Handles :=
  [(['!'], [0x21]), (['!', '!'], Utf8.encode "tag:yaml.org,2002:")]

/-- The text of a tag, empty for octets that are no text. A null octet ends it. -/
def Tag.text? (tag : Tag) (handles : Handles) : Option String := do
  let start ← if tag.handle.isEmpty then some [] else handles.lookup tag.handle
  let octets := (start ++ tag.octets.takeWhile (· != 0))
  pure (((Utf8.decode? octets).map String.ofList).getD "")

/-- The handles of a document with directives. A handle is given a meaning only once, and there is
one version, of which two are known. -/
def Handles.ofDirectives? (directives : List Directive) : Option Handles := do
  let versions := directives.filterMap fun
    | .version major minor => some (major, minor)
    | .tag .. => none
  let given : Handles := directives.filterMap fun
    | .version .. => none
    | .tag handle octets => some (handle, octets.takeWhile (· != 0))
  if 1 < versions.length || versions.any (fun v ↦ v != (1, 1) && v != (1, 2)) then none
  else if !(given.map (·.1)).Nodup then none
  else some (given ++ standardHandles)

end Moderation.Yaml
