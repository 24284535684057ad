import Moderation.Backend

/-!
# Faults of a session

Why an operation of a session fails: the session itself cannot start it, it is set up without
something that the operation needs, or the backend failed.
-/

namespace Moderation

inductive SessionFault where
  /-- A request for the reviewable is under way. -/
  | inFlight (id : ReviewableId)
  /-- The session does not have the reviewable. -/
  | unknownReviewable (id : ReviewableId)
  /-- The action was sent before. -/
  | alreadyDispatched (id : ReviewableId)
  | noTopic (id : ReviewableId)
  | unknownAction (id : ReviewableId) (action : String)
  | unregisteredWorkflow (name : String)
  | missingForm (action form : String)
  | backend (fault : BackendFault)

namespace SessionFault

def message : SessionFault → String
  | inFlight id => "an action on reviewable " ++ toString id ++ " is already in progress"
  | unknownReviewable id => "reviewable " ++ toString id ++ " is not loaded in this session"
  | alreadyDispatched id => "the action on reviewable " ++ toString id ++ " was already sent"
  | noTopic id => "reviewable " ++ toString id ++ " has no topic to claim"
  | unknownAction id action => "reviewable " ++ toString id ++ " has no action '" ++ action ++ "'"
  | unregisteredWorkflow name => "no handler registered for workflow '" ++ name ++ "'"
  | missingForm action form =>
    "action '" ++ action ++ "' is mapped to workflow '" ++ form ++
      "' but no form is registered for it"
  | backend fault => fault.message

end SessionFault

end Moderation
