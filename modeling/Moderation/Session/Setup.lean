import Moderation.Config
import Moderation.Session.Fault

/-!
# Setting a session up

A session acts for one moderator under one configuration, and knows which forms and client
workflows there are. Two workflows, the penalties, are always there, and so is the one that edits
the post where there is an editor; they come before others of the same name.
-/

namespace Moderation

inductive PenaltyKind where
  | suspend
  | silence
deriving DecidableEq, Repr

namespace PenaltyKind

def name : PenaltyKind → String
  | suspend => "suspend"
  | silence => "silence"

def ofName? : String → Option PenaltyKind
  | "suspend" => some suspend
  | "silence" => some silence
  | _ => none

theorem ofName?_name (kind : PenaltyKind) : ofName? kind.name = some kind := by
  cases kind <;> rfl

end PenaltyKind

/-- What runs before an action is sent, and sends it. -/
inductive Workflow where
  | penalty (kind : PenaltyKind)
  | edit
  | custom (name : String)
deriving DecidableEq, Repr

namespace Workflow

def editName : String := "edit"

end Workflow

structure Session where
  actor : User
  config : Config
  forms : List String
  /-- The client workflows of its own. -/
  workflows : List String
  hasPenaltyTool : Bool
  hasEditor : Bool

namespace Session

/-- The workflow of a name. -/
def workflow? (s : Session) (name : String) : Option Workflow :=
  match PenaltyKind.ofName? name with
  | some kind => some (.penalty kind)
  | none =>
    if s.hasEditor && name == Workflow.editName then some .edit
    else if s.workflows.contains name then some (.custom name)
    else none

/-- The mapping to a form that there is none of, the first in the order of the actions. The
mappings that every configuration has may lack theirs. -/
def missingForm? (s : Session) : Option (String × String) :=
  s.config.forms.toList.find? fun (action, form) ↦
    !(Config.builtin.any (·.1 == action)) && !s.forms.contains form

/-- The session, if every mapping that was configured has its form. -/
def checked (s : Session) : Except SessionFault Session :=
  match s.missingForm? with
  | some (action, form) => .error (.missingForm action form)
  | none => .ok s

/-- The form that collects what an action needs beside what the reviewable has. -/
def formOf? (s : Session) (action : Action) : Option String :=
  if action.needsReason then some Config.rejectReasonForm else s.config.formOf? action.name

end Session

end Moderation
