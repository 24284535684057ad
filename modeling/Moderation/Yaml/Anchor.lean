import Moderation.Document
import Moderation.Yaml.Node
import Moderation.Yaml.Scalar

/-!
# Anchors and aliases of YAML texts

An anchor gives a node a name, and an alias stands for the node that was given its name last. Names
become numbers in the order of the text, and aliases are then replaced by what they stand for. An
alias may stand within its own node, and a short text for more than anybody would read; aliases
beyond some number stand for nothing that can be read.
-/

namespace Moderation.Yaml

/-- How many lists and mappings of a text may lie in each other. -/
def depth : Nat := 128

/-- The names given so far, each once. -/
abbrev AnchorNumbers := List (String × Nat)

/-- Gives a name the number of names before it. A name that is given again keeps its place among
them, so that its new number may be given once more. -/
def AnchorNumbers.give (numbers : AnchorNumbers) (name : String) : Nat × AnchorNumbers :=
  (numbers.length, (name, numbers.length) :: numbers.filter (·.1 != name))

def Properties.number (p : Properties String) (numbers : AnchorNumbers) :
    Properties Nat × AnchorNumbers :=
  match p.anchor with
  | none => (⟨none, p.tag⟩, numbers)
  | some name =>
    let (n, numbers) := numbers.give name
    (⟨some n, p.tag⟩, numbers)

namespace Node

mutual

/-- The node with numbers for names; nothing if an alias has a name that was not given. -/
def number? : Node String → AnchorNumbers → Option (Node Nat × AnchorNumbers)
  | .alias name, numbers => (numbers.lookup name).map fun n ↦ (.alias n, numbers)
  | .scalar properties style text, numbers =>
    let (properties, numbers) := properties.number numbers
    some (.scalar properties style text, numbers)
  | .list properties items, numbers =>
    let (properties, numbers) := properties.number numbers
    (numberItems? items numbers).map fun (items, numbers) ↦ (.list properties items, numbers)
  | .mapping properties members, numbers =>
    let (properties, numbers) := properties.number numbers
    (numberMembers? members numbers).map fun (members, numbers) ↦
      (.mapping properties members, numbers)

def numberItems? : List (Node String) → AnchorNumbers → Option (List (Node Nat) × AnchorNumbers)
  | [], numbers => some ([], numbers)
  | item :: rest, numbers => do
    let (item, numbers) ← number? item numbers
    let (rest, numbers) ← numberItems? rest numbers
    pure (item :: rest, numbers)

def numberMembers? : List (Node String × Node String) → AnchorNumbers →
    Option (List (Node Nat × Node Nat) × AnchorNumbers)
  | [], numbers => some ([], numbers)
  | (key, value) :: rest, numbers => do
    let (key, numbers) ← number? key numbers
    let (value, numbers) ← number? value numbers
    let (rest, numbers) ← numberMembers? rest numbers
    pure ((key, value) :: rest, numbers)

end

/-- The node if it has a number. -/
def target (properties : Properties Nat) (node : Node Nat) : List (Nat × Node Nat) :=
  match properties.anchor with
  | none => []
  | some n => [(n, node)]

mutual

/-- The nodes with numbers in the order of the text. -/
def targets : Node Nat → List (Nat × Node Nat)
  | .alias _ => []
  | .scalar properties style text => target properties (.scalar properties style text)
  | .list properties items => target properties (.list properties items) ++ targetsOfItems items
  | .mapping properties members =>
    target properties (.mapping properties members) ++ targetsOfMembers members

def targetsOfItems : List (Node Nat) → List (Nat × Node Nat)
  | [] => []
  | item :: rest => targets item ++ targetsOfItems rest

def targetsOfMembers : List (Node Nat × Node Nat) → List (Nat × Node Nat)
  | [] => []
  | (key, value) :: rest => targets key ++ targets value ++ targetsOfMembers rest

end

mutual

/-- The size of a node: two for a list or mapping besides its contents, one for any other. -/
def size : Node Nat → Nat
  | .alias _ => 1
  | .scalar .. => 1
  | .list _ items => 2 + sizeOfItems items
  | .mapping _ members => 2 + sizeOfMembers members

def sizeOfItems : List (Node Nat) → Nat
  | [] => 0
  | item :: rest => size item + sizeOfItems rest

def sizeOfMembers : List (Node Nat × Node Nat) → Nat
  | [] => 0
  | (key, value) :: rest => size key + size value + sizeOfMembers rest

end

/-- A scalar line by line stands for a text, unless its tag says that it is an integer or a truth
value. -/
def scalarDocument (tag : Option String) (style : ScalarStyle) (text : String) : Document :=
  match style with
  | .plain => .plain text
  | .quoted => .text (some text)
  | .literal =>
    if (tag = some integerTag && (integer? text).isSome) ||
        (tag = some boolTag && (bool? text).isSome) then .plain text
    else .text (some text)

def tagged (tag : Option String) (document : Document) : Document :=
  match tag with
  | none => document
  | some tag => .tagged tag document

end Node

/-- What the number of an alias stands for: a document, and how many aliases are followed to read
all of it. -/
structure Meaning where
  document : Document
  jumps : Nat

namespace Node

variable (limit : Nat) (meaning : Nat → Meaning)

mutual

/-- The document of a node, and how many aliases have been followed when it is read, if it is known
how many have been before. Beyond the limit an alias stands for nothing that can be read. -/
def expand : Node Nat → Nat → Document × Nat
  | .alias n, jumps =>
    let jumps := jumps + 1 + (meaning n).jumps
    (if limit < jumps then .unreadable else (meaning n).document, jumps)
  | .scalar properties style text, jumps =>
    (tagged properties.tag (scalarDocument properties.tag style text), jumps)
  | .list properties items, jumps =>
    let (items, jumps) := expandItems items jumps
    (tagged properties.tag (.list items .layout), jumps)
  | .mapping properties members, jumps =>
    let (members, jumps) := expandMembers members jumps
    (tagged properties.tag (.mapping members .layout), jumps)

def expandItems : List (Node Nat) → Nat → List Document × Nat
  | [], jumps => ([], jumps)
  | item :: rest, jumps =>
    let (item, jumps) := expand item jumps
    let (rest, jumps) := expandItems rest jumps
    (item :: rest, jumps)

def expandMembers : List (Node Nat × Node Nat) → Nat → List (Document × Document) × Nat
  | [], jumps => ([], jumps)
  | (key, value) :: rest, jumps =>
    let (key, jumps) := expand key jumps
    let (value, jumps) := expand value jumps
    let (rest, jumps) := expandMembers rest jumps
    ((key, value) :: rest, jumps)

end

/-- The document of the root. Aliases are counted for each of its members apart, for a member that
nobody asks for is not read. -/
def expandRoot : Node Nat → Document
  | .mapping properties members =>
    let members := members.map fun member ↦ (expandMembers limit meaning [member] 0).1
    tagged properties.tag (.mapping members.flatten .layout)
  | node => (expand limit meaning node 0).1

end Node

/-- What a number stands for in a table. -/
def lookUp (table : List (Nat × Meaning)) (n : Nat) : Meaning :=
  (table.lookup n).getD ⟨.unreadable, 0⟩

/-- What numbers stand for down to a level, below which nothing is read. -/
def meanings (limit : Nat) (targets : List (Nat × Node Nat)) : Nat → List (Nat × Meaning)
  | 0 => targets.map fun (n, _) ↦ (n, ⟨.unreadable, 0⟩)
  | level + 1 =>
    let table := meanings limit targets level
    targets.map fun (n, node) ↦
      let (document, jumps) := node.expand limit (lookUp table) 0
      (n, ⟨document, jumps⟩)

/-- The document of a node with names. Of several nodes with one number the last counts, and for
each of its parts a text is worth following a hundred aliases. -/
def Node.document? (node : Node String) : Option Document :=
  (node.number? []).map fun (node, _) ↦
    let limit := 100 * node.size
    node.expandRoot limit (lookUp (meanings limit node.targets.reverse (depth + 1)))

/-- The one document of a text; nothing when the text is at fault. -/
def document? (text : List Char) : Option Document :=
  (tokens? text).bind fun tokens ↦ (Node.ofTokens? tokens).bind Node.document?

end Moderation.Yaml
