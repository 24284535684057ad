import Moderation.Yaml.Token

/-!
# Nodes of YAML texts

The one node of a text, by recursive descent over its tokens. A node that is left out is an empty
plain scalar. Each reader is given a number of steps, of which four for each token are enough.
-/

namespace Moderation.Yaml

/-- What stands before a node, with names or what they are resolved to. -/
structure Properties (α : Type) where
  anchor : Option α
  tag : Option String

inductive Node (α : Type) where
  | alias (name : α)
  | scalar (properties : Properties α) (style : ScalarStyle) (text : String)
  | list (properties : Properties α) (items : List (Node α))
  | mapping (properties : Properties α) (members : List (Node α × Node α))

namespace Properties

variable {α : Type}

def absent : Properties α := ⟨none, none⟩

def isAbsent (p : Properties α) : Bool := p.anchor.isNone && p.tag.isNone

/-- A single exclamation mark before a scalar is no tag. -/
def ofScalar (p : Properties α) : Properties α :=
  { p with tag := p.tag.filter (· != "!") }

/-- An anchor and a tag in either order. -/
def read? (handles : Handles) : List Token → Option (Properties String × List Token)
  | .anchor name :: .tag tag :: rest =>
    (tag.text? handles).map fun text ↦ (⟨some name, some text⟩, rest)
  | .tag tag :: .anchor name :: rest =>
    (tag.text? handles).map fun text ↦ (⟨some name, some text⟩, rest)
  | .anchor name :: rest => some (⟨some name, none⟩, rest)
  | .tag tag :: rest => (tag.text? handles).map fun text ↦ (⟨none, some text⟩, rest)
  | rest => some (absent, rest)

end Properties

/-- Where a node stands. -/
inductive Place where
  | flow
  | block
  /-- The key or the value of a member of a block, where a list needs no indentation. -/
  | member
deriving DecidableEq

namespace Node

def empty : Node String := .scalar .absent .plain ""

/-- Whether a node is left out, as the next token is one of those that end its place. -/
def isLeftOut (p : Token → Bool) (tokens : List Token) : Bool := tokens.head?.any p

def endsItem : Token → Bool
  | .item | .blockEnd => true
  | _ => false

def endsMember : Token → Bool
  | .key | .value | .blockEnd => true
  | _ => false

def endsFlowItem : Token → Bool
  | .comma | .flowListEnd => true
  | _ => false

def endsFlowMember : Token → Bool
  | .comma | .flowMappingEnd => true
  | _ => false

def isValue : Token → Bool
  | .value => true
  | _ => false

mutual

/-- A node, and the tokens after it. -/
def read? (handles : Handles) : Nat → Place → List Token → Option (Node String × List Token)
  | 0, _, _ => none
  | _ + 1, _, .alias name :: rest => some (.alias name, rest)
  | fuel + 1, place, tokens => do
    let (properties, tokens) ← Properties.read? handles tokens
    match tokens with
    | .scalar style text :: rest => some (.scalar properties.ofScalar style text, rest)
    | .flowList :: rest =>
      (readFlowItems? handles fuel true rest).map fun (items, rest) ↦
        (.list properties items, rest)
    | .flowMapping :: rest =>
      (readFlowMembers? handles fuel true rest).map fun (members, rest) ↦
        (.mapping properties members, rest)
    | .item :: rest =>
      if place = .member then
        (readLooseItems? handles fuel (.item :: rest)).map fun (items, rest) ↦
          (.list properties items, rest)
      else if properties.isAbsent then none
      else some (.scalar properties .plain "", .item :: rest)
    | .blockList :: rest =>
      if place = .flow then none
      else (readItems? handles fuel rest).map fun (items, rest) ↦ (.list properties items, rest)
    | .blockMapping :: rest =>
      if place = .flow then none
      else (readMembers? handles fuel rest).map fun (members, rest) ↦
        (.mapping properties members, rest)
    | tokens =>
      if properties.isAbsent then none else some (.scalar properties .plain "", tokens)

/-- A node, or an empty one if it is left out. -/
def readOr? (handles : Handles) : Nat → Place → (Token → Bool) → List Token →
    Option (Node String × List Token)
  | 0, _, _, _ => none
  | fuel + 1, place, ends, tokens =>
    if isLeftOut ends tokens then some (empty, tokens) else read? handles fuel place tokens

/-- The value of a member, which needs no colon if it is left out. -/
def readValue? (handles : Handles) : Nat → Place → (Token → Bool) → List Token →
    Option (Node String × List Token)
  | 0, _, _, _ => none
  | fuel + 1, place, ends, .value :: rest => readOr? handles fuel place ends rest
  | _ + 1, _, _, tokens => some (empty, tokens)

/-- The items of a block up to its end. -/
def readItems? (handles : Handles) : Nat → List Token → Option (List (Node String) × List Token)
  | 0, _ => none
  | _ + 1, .blockEnd :: rest => some ([], rest)
  | fuel + 1, .item :: rest => do
    let (item, rest) ← readOr? handles fuel .block endsItem rest
    let (items, rest) ← readItems? handles fuel rest
    pure (item :: items, rest)
  | _ + 1, _ => none

/-- The items of a list that is no block of its own. -/
def readLooseItems? (handles : Handles) : Nat → List Token →
    Option (List (Node String) × List Token)
  | 0, _ => none
  | fuel + 1, .item :: rest => do
    let (item, rest) ← readOr? handles fuel .block (fun t ↦ endsItem t || endsMember t) rest
    let (items, rest) ← readLooseItems? handles fuel rest
    pure (item :: items, rest)
  | _ + 1, tokens => some ([], tokens)

/-- The members of a block up to its end. -/
def readMembers? (handles : Handles) : Nat → List Token →
    Option (List (Node String × Node String) × List Token)
  | 0, _ => none
  | _ + 1, .blockEnd :: rest => some ([], rest)
  | fuel + 1, .key :: rest => do
    let (key, rest) ← readOr? handles fuel .member endsMember rest
    let (value, rest) ← readValue? handles fuel .member endsMember rest
    let (members, rest) ← readMembers? handles fuel rest
    pure ((key, value) :: members, rest)
  | _ + 1, _ => none

/-- The items up to a closing bracket, with a comma before each but the first. A pair among them
is a mapping of its own; if it has no key, the token that tells so is passed over. -/
def readFlowItems? (handles : Handles) : Nat → Bool → List Token →
    Option (List (Node String) × List Token)
  | 0, _, _ => none
  | _ + 1, _, .flowListEnd :: rest => some ([], rest)
  | fuel + 1, false, .comma :: rest =>
    match rest with
    | .flowListEnd :: rest => some ([], rest)
    | rest => readFlowItems? handles fuel true rest
  | fuel + 1, true, .key :: rest => do
    let (key, rest) ←
      if isLeftOut (fun t ↦ isValue t || endsFlowItem t) rest then some (empty, rest.drop 1)
      else read? handles fuel .flow rest
    let (value, rest) ← readValue? handles fuel .flow endsFlowItem rest
    let (items, rest) ← readFlowItems? handles fuel false rest
    pure (.mapping .absent [(key, value)] :: items, rest)
  | fuel + 1, true, tokens => do
    let (item, rest) ← read? handles fuel .flow tokens
    let (items, rest) ← readFlowItems? handles fuel false rest
    pure (item :: items, rest)
  | _ + 1, false, _ => none

/-- The members up to a closing brace, with a comma before each but the first. A member without a
colon has no value. -/
def readFlowMembers? (handles : Handles) : Nat → Bool → List Token →
    Option (List (Node String × Node String) × List Token)
  | 0, _, _ => none
  | _ + 1, _, .flowMappingEnd :: rest => some ([], rest)
  | fuel + 1, false, .comma :: rest =>
    match rest with
    | .flowMappingEnd :: rest => some ([], rest)
    | rest => readFlowMembers? handles fuel true rest
  | fuel + 1, true, .key :: rest => do
    let (key, rest) ← readOr? handles fuel .flow (fun t ↦ isValue t || endsFlowMember t) rest
    let (value, rest) ← readValue? handles fuel .flow endsFlowMember rest
    let (members, rest) ← readFlowMembers? handles fuel false rest
    pure ((key, value) :: members, rest)
  | fuel + 1, true, tokens => do
    let (key, rest) ← read? handles fuel .flow tokens
    let (members, rest) ← readFlowMembers? handles fuel false rest
    pure ((key, empty) :: members, rest)
  | _ + 1, false, _ => none

end

def endsDocument : Token → Bool
  | .directive _ | .documentStart | .documentEnd => true
  | _ => false

/-- The directives at the start, and the tokens after them. -/
def splitDirectives : List Token → List Directive × List Token
  | .directive directive :: rest =>
    let (directives, rest) := splitDirectives rest
    (directive :: directives, rest)
  | tokens => ([], tokens)

/-- A node that begins a document, with what its handles stand for. -/
def readRoot? (handles : Handles) (tokens : List Token) : Option (Node String × List Token) :=
  read? handles (4 * tokens.length + 4) .block tokens

/-- The document at the start, after its directives and its mark if it has them. -/
def readDocument? (tokens : List Token) : Option (Node String × List Token) :=
  match splitDirectives tokens with
  | (directives, .documentStart :: rest) => do
    let handles ← Handles.ofDirectives? directives
    if rest.isEmpty || isLeftOut endsDocument rest then some (empty, rest)
    else readRoot? handles rest
  | ([], tokens) => readRoot? standardHandles tokens
  | _ => none

/-- The node of a text that holds one document or nothing at all. -/
def ofTokens? (tokens : List Token) : Option (Node String) := do
  if tokens.isEmpty then some empty
  else
    let (node, rest) ← readDocument? tokens
    let rest := rest.dropWhile fun
      | .documentEnd => true
      | _ => false
    if rest.isEmpty then some node else none

end Node

end Moderation.Yaml
