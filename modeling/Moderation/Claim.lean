import Moderation.Identity

/-!
# Claims

A claim reserves a topic for one moderator. An automatic claim is a side effect of starting an
action and ends with it; an explicit claim stays until its holder gives it up.
-/

namespace Moderation

structure Claim where
  user : User
  automatic : Bool
deriving DecidableEq, Repr, Inhabited

/-- Whether topics have to be claimed before anyone acts on what lies in them. -/
inductive ClaimMode where
  | disabled
  | optional
  | required
deriving DecidableEq, Repr

namespace ClaimMode

instance : Inhabited ClaimMode := ⟨optional⟩

def name : ClaimMode → String
  | .disabled => "disabled"
  | .optional => "optional"
  | .required => "required"

def ofName? : String → Option ClaimMode
  | "disabled" => some .disabled
  | "optional" => some .optional
  | "required" => some .required
  | _ => none

theorem ofName?_name (mode : ClaimMode) : ofName? mode.name = some mode := by
  cases mode <;> rfl

end ClaimMode

end Moderation
