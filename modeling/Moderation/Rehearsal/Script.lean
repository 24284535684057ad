import Moderation.Document.Decoder
import Moderation.Session.Live

/-!
# Scripts

A script rehearses a session without a moderator, and without a backend unless one is given. It
lists what is done with the session, and fixes how the backend and everybody else behave. Whoever
is asked may do something with the session, too, before the answer is given.
-/

namespace Moderation.Rehearsal

mutual

/-- Something to do with a session. -/
inductive Op where
  -- the store
  | insert (r : Reviewable)
  | replaceAll (rs : List Reviewable)
  | refresh (r : Reviewable)
  | remove (ids : List ReviewableId)
  | setClaim (id : ReviewableId) (claim : Option Claim)
  | setTopicClaim (topic : TopicId) (claim : Option Claim)
  | applyCounts (reviewables unseen : Option UInt64)
  | get (id : ReviewableId)
  | inspect (id : ReviewableId)
  | snapshot
  /-- Marks a reviewable under a name for the marker. -/
  | beginUpdate (id : ReviewableId) (name : String)
  | endUpdate (name : String)
  -- claims
  | ensureClaimed (id : ReviewableId)
  | claim (id : ReviewableId)
  | unclaim (id : ReviewableId)
  | release (r : Reviewable)
  | releaseCopy (id : ReviewableId)
  | policy (r : Reviewable)
  | policyOfCopy (id : ReviewableId)
  -- actions
  | perform (id : ReviewableId) (action : Action) (extra : Fields)
  | performNamed (id : ReviewableId) (name : String) (extra : Fields)
  | saveEdit (id : ReviewableId) (updates : Fields)
  | loadQueue
  -- the script itself
  | setListing (rs : List Reviewable)
  | addReply (reply : Reply)
  -- live updates
  | subscribe
  | unsubscribe
  | isSubscribed
  | hold
  | letGo
  | apply (channel payload : String)
  | publish (messages : List (String × String))
  /-- What could not be read, by its name. -/
  | unreadable (name : String)

/-- The next answer to questions of one kind, and what is done before it is given. -/
inductive Reply where
  | perform (meanwhile : List Op) (answer : Except BackendFault PerformResult)
  | claim (meanwhile : List Op) (answer : Except BackendFault Claim)
  | release (meanwhile : List Op) (answer : Except BackendFault Unit)
  | fetch (meanwhile : List Op) (answer : Except BackendFault Reviewable)
  | list (meanwhile : List Op) (answer : Except BackendFault (List Reviewable))
  | update (meanwhile : List Op) (answer : Except BackendFault Reviewable)
  | confirm (meanwhile : List Op) (answer : Bool)

end

/-- How the claims of a reviewable look to the session. -/
structure Policy where
  mode : ClaimMode
  actor : User
  enabled : Bool
  canPerform : Bool
  status : ClaimStatus

/-- What an operation gives back. -/
abbrev Op.Answer : Op → Type
  | .insert _ => Unit
  | .replaceAll _ => Unit
  | .refresh _ => Bool
  | .remove _ => List ReviewableId
  | .setClaim .. => Bool
  | .setTopicClaim .. => Nat
  | .applyCounts .. => Bool
  | .get _ => Option Reviewable
  | .inspect _ => Store
  | .snapshot => List Reviewable
  | .beginUpdate .. => Except SessionFault ReviewableId
  | .endUpdate _ => Bool
  | .ensureClaimed _ => Bool
  | .claim _ => Except SessionFault Claim
  | .unclaim _ => Except SessionFault Unit
  | .release _ => Except BackendFault Bool
  | .releaseCopy _ => Option (Except BackendFault Bool)
  | .policy _ => Policy
  | .policyOfCopy _ => Option Policy
  | .perform .. => Except SessionFault Outcome
  | .performNamed .. => Except SessionFault Outcome
  | .saveEdit .. => Except SessionFault Reviewable
  | .loadQueue => Except SessionFault Nat
  | .setListing _ => Unit
  | .addReply _ => Unit
  | .subscribe => Bool
  | .unsubscribe => Bool
  | .isSubscribed => Bool
  | .hold => Bool
  | .letGo => Bool × Bool
  | .apply .. => Except DecodeFault (Option Unit)
  | .publish _ => Except DecodeFault (Option Unit)
  | .unreadable _ => Unit

/-- A form: what is entered, if anything is, and what is done meanwhile. A form that is known up
front leaves no trace. -/
structure Form where
  known : Bool
  meanwhile : List Op
  values : Option Fields

structure Editor where
  meanwhile : List Op
  editable : Bool

structure PenaltyTool where
  meanwhile : List Op
  /-- The fields to send the action with, once for each. -/
  sends : List Fields
  success : Bool

structure ClientWorkflow where
  meanwhile : List Op
  sends : List Fields
  /-- Whether it goes on after a send that failed. -/
  ignoresErrors : Bool
  fault : Option SessionFault

/-- Everybody beside the backend. -/
structure Script where
  session : Session
  forms : List (String × Form)
  workflows : List (String × ClientWorkflow)
  penaltyTool : Option PenaltyTool
  editor : Option Editor
  /-- Whether nobody sees notices, and confirmations are given unasked. -/
  unattended : Bool
  /-- A backend that answers in place of the script. -/
  backend : Option ((request : Request) → request.Reply)

end Moderation.Rehearsal
