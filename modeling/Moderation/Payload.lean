import Moderation.Reviewable

/-!
# Payloads of actions

What goes to the backend with an action. The reviewable's own email choice and reason come first,
what the moderator entered goes over them, and the fields that are registered for the kind of
reviewable go over both, as far as their values are true.
-/

namespace Moderation

namespace Payload

/-- The attributes of the reviewable that are always sent when they are set. -/
def attributes (r : Reviewable) : Fields :=
  let payload : Fields := ∅
  let payload := match r.sendEmail with
    | some b => payload.insert "send_email" (.bool b)
    | none => payload
  match r.rejectReason with
  | some reason => payload.insert "reject_reason" (.string reason)
  | none => payload

/-- A registered field on top, if its value is true. -/
def addField (r : Reviewable) (payload : Fields) (name : String) : Fields :=
  match (r.field? name).filter Json.isTruthy with
  | some value => payload.insert name value
  | none => payload

def build (r : Reviewable) (entered : Fields) (registered : List String) : Fields :=
  registered.foldl (addField r) ((attributes r).overlay entered)

end Payload

end Moderation
