/-!
# Actions

What a moderator may do with a reviewable, and how the client gets there: a confirmation, a
reason for rejecting, or a workflow of its own before anything is sent.
-/

namespace Moderation

structure Action where
  /-- The name that the backend knows the action by. -/
  name : String
  label : Option String
  /-- The workflow that runs before the action is sent, and sends it. -/
  workflow : Option String
  /-- The question to ask before anything else. -/
  confirmation : Option String
  needsReason : Bool
  /-- The notice to give afterwards. -/
  completion : Option String
deriving DecidableEq, Repr, Inhabited

end Moderation
