/-!
# Statuses

A reviewable is pending until an action resolves it for good. The name of the action decides into
which status, by the first of a list of beginnings that it has.
-/

namespace Moderation

inductive Status where
  | pending
  | approved
  | rejected
  | ignored
  | deleted
deriving DecidableEq, Repr, Inhabited

namespace Status

def name : Status → String
  | .pending => "pending"
  | .approved => "approved"
  | .rejected => "rejected"
  | .ignored => "ignored"
  | .deleted => "deleted"

def ofName? : String → Option Status
  | "pending" => some .pending
  | "approved" => some .approved
  | "rejected" => some .rejected
  | "ignored" => some .ignored
  | "deleted" => some .deleted
  | _ => none

theorem ofName?_name (status : Status) : ofName? status.name = some status := by
  cases status <;> rfl

def isResolved (status : Status) : Bool := status != .pending

/-- The beginnings of action names, an earlier one before a later. -/
def ofBeginning : List (String × Status) :=
  [("approve", .approved), ("revise_and_reject", .rejected), ("reject", .rejected),
    ("ignore", .ignored), ("disagree", .ignored), ("agree", .approved), ("delete", .deleted)]

/-- The status that an action of this name resolves to. -/
def forAction? (action : String) : Option Status :=
  (ofBeginning.find? fun (beginning, _) ↦ beginning.toList.isPrefixOf action.toList).map (·.2)

end Status

end Moderation
