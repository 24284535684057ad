import Moderation.Claim

/-!
# Configurations of sessions

Which form an action asks for, and which fields go with the actions on a kind of reviewable. A
configuration is built from registrations; one mapping is always there and cannot be registered.
-/

namespace Moderation

namespace Config

/-- The form that collects a reason for rejecting. -/
def rejectReasonForm : String := "reject_reason"

def reviseAndRejectPost : String := "revise_and_reject_post"

/-- The mappings from actions to forms that every configuration has. -/
def builtin : List (String × String) := [(reviseAndRejectPost, reviseAndRejectPost)]

inductive Problem where
  /-- A mapping without an action or a form. -/
  | incompleteMapping
  /-- A mapping for an action that has a form of its own. -/
  | reserved (action form : String)
  /-- A parameter without a name. -/
  | emptyParameter (kind : String)
deriving DecidableEq, Repr

namespace Problem

def message : Problem → String
  | .incompleteMapping =>
    "invalid config: action workflow mappings need both an action and a workflow"
  | .reserved action form =>
    "cannot override built-in workflow for '" ++ action ++ "' (mapped to '" ++ form ++ "')"
  | .emptyParameter kind => "invalid config: empty parameter name for type " ++ kind

end Problem

end Config

structure Config where
  mode : ClaimMode
  /-- The form of each action that has one. -/
  forms : Std.ExtTreeMap String String
  /-- The fields to send along, for each kind of reviewable. -/
  parameters : Std.ExtTreeMap String (List String)

namespace Config

instance : Inhabited Config := ⟨⟨.optional, .ofList builtin, ∅⟩⟩

def formOf? (config : Config) (action : String) : Option String := config.forms[action]?

/-- The registered fields of a kind, in the order of their registration. -/
def parametersOf (config : Config) (kind : String) : List String :=
  config.parameters[kind]?.getD []

/-- One mapping more, the last of an action counting. -/
def addForm (forms : Std.ExtTreeMap String String) :
    String × String → Except Problem (Std.ExtTreeMap String String)
  | (action, form) =>
    if action.isEmpty || form.isEmpty then .error .incompleteMapping
    else match builtin.find? (·.1 == action) with
      | some (_, own) => .error (.reserved action own)
      | none => .ok (forms.insert action form)

/-- One parameter more, unless the kind has it. -/
def addParameter (parameters : Std.ExtTreeMap String (List String)) :
    String × String → Except Problem (Std.ExtTreeMap String (List String))
  | (kind, name) =>
    if name.isEmpty then .error (.emptyParameter kind)
    else
      let known := parameters[kind]?.getD []
      .ok (parameters.insert kind (if known.contains name then known else known ++ [name]))

/-- The configuration of a list of mappings and a list of parameters. -/
def build (mode : ClaimMode) (mappings parameters : List (String × String)) :
    Except Problem Config := do
  let forms ← mappings.foldlM addForm (.ofList builtin)
  let parameters ← parameters.foldlM addParameter ∅
  pure { mode, forms, parameters }

inductive Registration where
  | mode (mode : ClaimMode)
  | form (action form : String)
  | parameter (kind name : String)
deriving DecidableEq, Repr

/-- What has been registered. The last mode counts, of the others all are kept in their order. -/
structure Builder where
  mode : ClaimMode
  mappings : List (String × String)
  parameters : List (String × String)

namespace Builder

def empty : Builder := ⟨.optional, [], []⟩

def register (b : Builder) : Registration → Builder
  | .mode mode => { b with mode }
  | .form action form => { b with mappings := b.mappings ++ [(action, form)] }
  | .parameter kind name => { b with parameters := b.parameters ++ [(kind, name)] }

def build (b : Builder) : Except Problem Config := Config.build b.mode b.mappings b.parameters

end Builder

def ofRegistrations (registrations : List Registration) : Except Problem Config :=
  (registrations.foldl Builder.register .empty).build

/-- The saved form of a configuration. -/
structure File where
  mode : ClaimMode
  forms : Std.ExtTreeMap String String
  parameters : Std.ExtTreeMap String (List String)

def toFile (config : Config) : File := ⟨config.mode, config.forms, config.parameters⟩

/-- What a file registers, action by action and kind by kind. -/
def File.registrations (file : File) : List Registration :=
  .mode file.mode ::
    (file.forms.toList.map fun (action, form) ↦ .form action form) ++
    file.parameters.toList.flatMap fun (kind, names) ↦ names.map (.parameter kind)

def ofFile (file : File) : Except Problem Config := ofRegistrations file.registrations

end Config

end Moderation
