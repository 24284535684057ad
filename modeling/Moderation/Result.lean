import Moderation.Reviewable

/-!
# Results of actions

What the backend answers to an action that it took.
-/

namespace Moderation

structure PerformResult where
  success : Bool
  /-- The status that the reviewable is in now. -/
  status : Option Status
  version : Option UInt64
  /-- The reviewable as it is now. -/
  reviewable : Option Reviewable
  /-- The reviewables that need no more review. -/
  removed : Option (List ReviewableId)
  count : Option UInt64
  unseen : Option UInt64

end Moderation
