import Moderation.Command.Files
import Moderation.Command.Pairs
import Moderation.Session.Perform
import Moderation.Wire.Config

/-!
# Failures of commands

Why a command does not do what it was asked for, and how the user is told.
-/

namespace Moderation.Command

/-- What is wrong with a file. -/
inductive FileFault where
  | unreadable (fault : ReadFault)
  | load (fault : Config.LoadFault)
deriving DecidableEq, Repr

def FileFault.message : FileFault → String
  | .unreadable fault => fault.message
  | .load .malformed => "malformed document"
  | .load (.problem p) => p.message

inductive Failure where
  | noModeratorId
  | noModeratorName
  | badPair (fault : Pairs.Fault)
  /-- A configuration that was needed for something else. -/
  | configFailed (path : String) (fault : FileFault)
  /-- A configuration that was to be looked at. -/
  | configInvalid (path : String) (fault : FileFault)
  | seedFailed (path : String) (fault : FileFault)
  | queueFailed (fault : BackendFault)
  | reviewableFailed (id : ReviewableId) (fault : BackendFault)
  | streamFailed (fault : BackendFault)
  | session (fault : SessionFault)
  | notPending (id : ReviewableId)
  | notPerformed (action : String) (reason : Abort)

def abortReason : Abort → String
  | .claimRefused => "the topic is claimed by another moderator"
  | .confirmationDismissed => "confirmation dismissed"
  | .formDismissed => "a rejection reason is required (--reason)"
  | .workflowIncomplete => "the client workflow did not complete"

def Failure.message : Failure → String
  | .noModeratorId => "no moderator id: pass --user-id or set CLAIMDESK_USER_ID"
  | .noModeratorName => "no moderator username: pass --username or set CLAIMDESK_USERNAME"
  | .badPair fault => fault.message
  | .configFailed path fault => "failed to load config " ++ path ++ ": " ++ fault.message
  | .configInvalid path fault => "invalid config " ++ path ++ ": " ++ fault.message
  | .seedFailed path fault => "failed to load seed " ++ path ++ ": " ++ fault.message
  | .queueFailed fault => "failed to load review queue: " ++ fault.message
  | .reviewableFailed id fault =>
    "failed to load reviewable " ++ toString id ++ ": " ++ fault.message
  | .streamFailed fault => "failed to open event stream: " ++ fault.message
  | .session fault => fault.message
  | .notPending id => "reviewable " ++ toString id ++ " is not in the pending queue"
  | .notPerformed action reason => action ++ " not performed: " ++ abortReason reason

end Moderation.Command
