import Moderation.Claim
import Moderation.Identity
import Moderation.Text.Split
import Moderation.Text.Unsigned

/-!
# Arguments of the command line

Arguments are read from left to right, level by level: the program, one of its commands, and
perhaps a command of that. Some options are known at every level, and the deepest level at which
one is given counts. Where none is, a variable of the environment may stand in for it.
-/

namespace Moderation.Command

structure Settings where
  server : String
  userId : Option UserId
  username : Option String
  config : Option String
  json : Bool
  /-- Whether confirmations are given unasked. -/
  assumeYes : Bool
deriving DecidableEq, Repr

inductive Job where
  | serve (port : UInt16) (seed : Option String) (mode : Option ClaimMode)
  | list
  | detail (id : ReviewableId)
  | perform (id : ReviewableId) (action : String) (reason : Option String) (pairs : List String)
  | claim (id : ReviewableId)
  | unclaim (id : ReviewableId)
  | watch
  | checkConfig
  | showConfig
deriving DecidableEq, Repr

structure Invocation where
  settings : Settings
  job : Job
deriving DecidableEq, Repr

/-- Why there is nothing to be done. -/
inductive Stop where
  /-- The version is asked for, under the name of a level. -/
  | version (name : String)
  /-- Help is asked for. -/
  | help (name : String)
  | misuse (message : String)
deriving DecidableEq, Repr

inductive Opt where
  | server
  | userId
  | username
  | config
  | json
  | yes
  | port
  | seed
  | claimMode
  | reason
  | field
deriving DecidableEq, Repr

namespace Opt

def name : Opt → String
  | server => "server"
  | userId => "user-id"
  | username => "username"
  | config => "config"
  | json => "json"
  | yes => "yes"
  | port => "port"
  | seed => "seed"
  | claimMode => "claim-mode"
  | reason => "reason"
  | field => "field"

def letter? : Opt → Option Char
  | json => some 'j'
  | yes => some 'y'
  | _ => none

def takesValue (o : Opt) : Bool := o.letter?.isNone

/-- The variable of the environment that stands in for the option. -/
def standIn? : Opt → Option String
  | server => some "CLAIMDESK_SERVER"
  | userId => some "CLAIMDESK_USER_ID"
  | username => some "CLAIMDESK_USERNAME"
  | config => some "CLAIMDESK_CONFIG"
  | _ => none

/-- The options that are known at every level. -/
def everywhere : List Opt := [server, userId, username, config, json, yes]

end Opt

/-- A port number; a sign may stand before it, the minus sign before a zero. -/
def port? (text : String) : Option UInt16 :=
  let (negative, digits) := match text.toList with
    | '-' :: cs => (true, cs)
    | '+' :: cs => (false, cs)
    | cs => (false, cs)
  match Unsigned.readDigits digits with
  | .ok n =>
    if n.toNat < UInt16.size ∧ (negative → n = 0) then some (UInt16.ofNat n.toNat) else none
  | .error _ => none

/-- Whether a text can be the value of an option. -/
def Opt.accepts (text : String) : Opt → Bool
  | userId => (Unsigned.read text).toOption.isSome
  | config | seed => !text.isEmpty
  | port => (port? text).isSome
  | claimMode => (ClaimMode.ofName? text).isSome
  | _ => true

inductive Level where
  | top
  | serve
  | list
  | detail
  | perform
  | claim
  | unclaim
  | watch
  | config
  | checkConfig
  | showConfig
deriving DecidableEq, Repr

/-- What an argument that is no option has to be. -/
inductive Word where
  | number
  | text
deriving DecidableEq, Repr

def Word.accepts (text : String) : Word → Bool
  | .number => (Unsigned.read text).toOption.isSome
  | .text => true

def programName : String := "claimdesk"

def programVersion : String := "0.1.0"

namespace Level

/-- The commands that a level has, by name. -/
def children : Level → List (String × Level)
  | top =>
    [("serve", serve), ("list", list), ("show", detail), ("perform", perform), ("claim", claim),
      ("unclaim", unclaim), ("watch", watch), ("config", config)]
  | config => [("check", checkConfig), ("show", showConfig)]
  | _ => []

/-- The full name of a level, its parts joined by hyphens. -/
def name : Level → String
  | top => programName
  | serve => programName ++ "-serve"
  | list => programName ++ "-list"
  | detail => programName ++ "-show"
  | perform => programName ++ "-perform"
  | claim => programName ++ "-claim"
  | unclaim => programName ++ "-unclaim"
  | watch => programName ++ "-watch"
  | config => programName ++ "-config"
  | checkConfig => programName ++ "-config-check"
  | showConfig => programName ++ "-config-show"

def options : Level → List Opt
  | serve => Opt.everywhere ++ [.port, .seed, .claimMode]
  | perform => Opt.everywhere ++ [.reason, .field]
  | _ => Opt.everywhere

def words : Level → List Word
  | detail | claim | unclaim => [.number]
  | perform => [.number, .text]
  | _ => []

end Level

/-- One argument by its form. -/
inductive Token where
  | long (name : String) (value : Option String)
  | letters (letters : List Char)
  | word (text : String)
deriving DecidableEq, Repr

/-- A hyphen alone is a word like any other. -/
def Token.ofText (text : String) : Token :=
  match text.toList with
  | '-' :: '-' :: cs =>
    let (name, value) := Text.cut '=' cs
    .long (String.ofList name) (value.map String.ofList)
  | '-' :: c :: cs => .letters (c :: cs)
  | _ => .word text

/-- What was read so far. -/
structure Reading where
  level : Level
  /-- The options given at the level. -/
  given : List (Opt × String)
  /-- The options given at the levels above, the nearest first. -/
  above : List (List (Opt × String))
  words : List String

namespace Reading

def start : Reading := ⟨.top, [], [], []⟩

/-- One option more. Only one that gathers values may be given twice at a level. -/
def give (r : Reading) (o : Opt) (value : String) : Except Stop Reading :=
  if o != .field && r.given.any (·.1 == o) then
    .error (.misuse ("the option --" ++ o.name ++ " cannot be used twice"))
  else if o.takesValue && !o.accepts value then
    .error (.misuse ("invalid value for --" ++ o.name ++ ": " ++ value))
  else .ok { r with given := r.given ++ [(o, value)] }

/-- A word for the place that is next. -/
def place (r : Reading) (text : String) : Except Stop Reading :=
  match r.level.words[r.words.length]? with
  | some word =>
    if word.accepts text then .ok { r with words := r.words ++ [text] }
    else .error (.misuse ("invalid value: " ++ text))
  | none => .error (.misuse ("unexpected argument: " ++ text))

def descend (r : Reading) (child : Level) : Reading := ⟨child, [], r.given :: r.above, []⟩

/-- An option by its letter, or what else a letter asks for. -/
def takeLetter (r : Reading) (letter : Char) : Except Stop Reading :=
  if letter = 'h' then .error (.help r.level.name)
  else if letter = 'V' then .error (.version r.level.name)
  else match r.level.options.find? (·.letter? == some letter) with
    | some o => r.give o ""
    | none => .error (.misuse ("unknown option -" ++ letter.toString))

def unknown (name : String) : Stop := .misuse ("unknown option --" ++ name)

def unfinished (name : String) : Stop := .misuse ("a value is required for --" ++ name)

/-- Help on the command that names lead to. -/
def helpOn (level : Level) : List String → Stop
  | [] => .help level.name
  | name :: rest => match level.children.lookup name with
    | some child => helpOn child rest
    | none => .misuse ("unknown command: " ++ name)

/-- Reads the arguments from some point on. After two hyphens there are only words. -/
def read (r : Reading) : List String → Except Stop Reading
  | [] => .ok r
  | argument :: rest => match Token.ofText argument with
    | .long "" none => rest.foldlM place r
    | .long name value =>
      if name = "help" ∧ value.isNone then .error (.help r.level.name)
      else if name = "version" ∧ value.isNone then .error (.version r.level.name)
      else match r.level.options.find? (·.name == name), value with
        | none, _ => .error (unknown name)
        | some o, some value =>
          if o.takesValue then do (← r.give o value).read rest
          else .error (.misuse ("unexpected value for --" ++ name))
        | some o, none =>
          if o.takesValue then match rest with
            | [] => .error (unfinished name)
            | value :: rest => match Token.ofText value with
              | .word value => do (← r.give o value).read rest
              | _ => .error (unfinished name)
          else do (← r.give o "").read rest
    | .letters letters => do (← letters.foldlM takeLetter r).read rest
    | .word text => match r.level.children.lookup text with
      | some child => (r.descend child).read rest
      | none =>
        if text = "help" ∧ !r.level.children.isEmpty then .error (helpOn r.level rest)
        else do (← r.place text).read rest

end Reading

/-! ## Making sense of what was read -/

abbrev Environment := List (String × String)

/-- The value of the environment for an option. -/
def Environment.value? (env : Environment) (o : Opt) : Option String :=
  o.standIn?.bind fun name ↦ List.lookup name env

namespace Reading

/-- The options of each level, the deepest first. -/
def levels (r : Reading) : List (List (Opt × String)) := r.given :: r.above

/-- A variable that some level falls back on, with a value that its option cannot have. -/
def badVariable? (r : Reading) (env : Environment) : Option Opt :=
  Opt.everywhere.find? fun o ↦ match env.value? o with
    | some value => !o.accepts value && r.levels.any fun given ↦ !given.any (·.1 == o)
    | none => false

def value? (r : Reading) (env : Environment) (o : Opt) : Option String :=
  (r.levels.findSome? fun given ↦ given.lookup o).or (env.value? o)

def isSet (r : Reading) (o : Opt) : Bool := r.levels.any (·.any (·.1 == o))

def settings (r : Reading) (env : Environment) : Settings where
  server := (r.value? env .server).getD "http://localhost:7800"
  userId := ((r.value? env .userId).bind fun text ↦ (Unsigned.read text).toOption).map .mk
  username := r.value? env .username
  config := r.value? env .config
  json := r.isSet .json
  assumeYes := r.isSet .yes

/-- A word that is a number. -/
def number? (r : Reading) (place : Nat) : Option ReviewableId :=
  (r.words[place]?.bind fun text ↦ (Unsigned.read text).toOption).map .mk

/-- The job of the level, if all its words are there. -/
def job? (r : Reading) : Option Job :=
  match r.level with
  | .serve =>
    some (.serve (((r.given.lookup .port).bind port?).getD 7800) (r.given.lookup .seed)
      ((r.given.lookup .claimMode).bind ClaimMode.ofName?))
  | .list => some .list
  | .detail => (r.number? 0).map .detail
  | .perform => do
    let id ← r.number? 0
    let action ← r.words[1]?
    let pairs := (r.given.filter (·.1 == .field)).map (·.2)
    some (.perform id action (r.given.lookup .reason) pairs)
  | .claim => (r.number? 0).map .claim
  | .unclaim => (r.number? 0).map .unclaim
  | .watch => some .watch
  | .checkConfig => some .checkConfig
  | .showConfig => some .showConfig
  | .top | .config => none

end Reading

namespace Invocation

/-- What the arguments ask for. -/
def parse (env : Environment) (arguments : List String) : Except Stop Invocation := do
  let r ← Reading.start.read arguments
  match r.badVariable? env with
  | some o => .error (.misuse ("invalid value in the environment for --" ++ o.name))
  | none => match r.job? with
    | some job => .ok ⟨r.settings env, job⟩
    | none => .error (.misuse ("something is missing after " ++ r.level.name))

end Invocation

end Moderation.Command
