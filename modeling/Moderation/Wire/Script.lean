import Moderation.Document.Member
import Moderation.Rehearsal.Script
import Moderation.Wire.Result

/-!
# Scripts on the wire

An operation is a mapping that tells by name what is done, beside what it is done with. A reply
is a mapping with an answer or an error, and belongs to the endpoint that it is listed under. An
operation that cannot be read stays in its place as one that does nothing.
-/

namespace Moderation.Rehearsal

open Decoder

/-- The name of what is done. -/
def Op.name : Op → String
  | .insert _ => "insert"
  | .replaceAll _ => "replace_all"
  | .refresh _ => "refresh"
  | .remove _ => "remove"
  | .setClaim .. => "set_claim"
  | .setTopicClaim .. => "set_topic_claim"
  | .applyCounts .. => "apply_counts"
  | .get _ => "get"
  | .inspect _ => "query"
  | .snapshot => "snapshot"
  | .beginUpdate .. => "begin"
  | .endUpdate _ => "end"
  | .ensureClaimed _ => "ensure_claimed"
  | .claim _ => "claim"
  | .unclaim _ => "unclaim"
  | .release _ | .releaseCopy _ => "release"
  | .policy _ | .policyOfCopy _ => "policy"
  | .perform .. => "perform"
  | .performNamed .. => "perform_action"
  | .saveEdit .. => "save_edit"
  | .loadQueue => "load_queue"
  | .setListing _ => "set_listing"
  | .addReply _ => "reply"
  | .subscribe => "subscribe"
  | .unsubscribe => "unsubscribe"
  | .isSubscribed => "is_subscribed"
  | .hold => "scope"
  | .letGo => "unscope"
  | .apply .. => "apply"
  | .publish _ => "publish"
  | .unreadable name => name

/-- A message: its channel and its payload. -/
def decodeMessage : Decoder (String × String) := fun n d ↦ do
  pure (← required "channel" string n d, ← required "payload" string n d)

/-- The operations that take no reply. -/
def Op.decodePlain (now : Time) : Decoder Op := fun n d ↦ do
  let id := required "id" reviewableId n d
  let claim := allowed "claim" Claim.decode n d
  let reviewable := required "reviewable" (Reviewable.decode now) n d
  let reviewables := required "reviewables" (list (Reviewable.decode now)) n d
  let extra := defaulted "extra" fields ∅ n d
  let hasReviewable := (d.member? "reviewable").isSome
  match ← required "do" string n d with
  | "insert" => do pure (.insert (← reviewable))
  | "replace_all" => do pure (.replaceAll (← reviewables))
  | "refresh" => do pure (.refresh (← reviewable))
  | "remove" => do pure (.remove (← required "ids" (list reviewableId) n d))
  | "set_claim" => do pure (.setClaim (← id) (← claim))
  | "set_topic_claim" => do pure (.setTopicClaim (← required "topic" topicId n d) (← claim))
  | "apply_counts" => do
    pure (.applyCounts (← allowed "reviewable_count" uint64 n d) (← allowed "unseen" uint64 n d))
  | "get" => do pure (.get (← id))
  | "query" => do pure (.inspect (← id))
  | "snapshot" => pure .snapshot
  | "begin" => do pure (.beginUpdate (← id) (← defaulted "guard" string "" n d))
  | "end" => do pure (.endUpdate (← defaulted "guard" string "" n d))
  | "ensure_claimed" => do pure (.ensureClaimed (← id))
  | "claim" => do pure (.claim (← id))
  | "unclaim" => do pure (.unclaim (← id))
  | "release" =>
    if hasReviewable then do pure (.release (← reviewable)) else do pure (.releaseCopy (← id))
  | "policy" =>
    if hasReviewable then do pure (.policy (← reviewable)) else do pure (.policyOfCopy (← id))
  | "perform" => do
    pure (.perform (← id) (← required "action" Action.decode n d) (← extra))
  | "perform_action" => do
    pure (.performNamed (← id) (← required "action" string n d) (← extra))
  | "save_edit" => do pure (.saveEdit (← id) (← defaulted "updates" fields ∅ n d))
  | "load_queue" => pure .loadQueue
  | "set_listing" => do pure (.setListing (← reviewables))
  | "subscribe" => pure .subscribe
  | "unsubscribe" => pure .unsubscribe
  | "is_subscribed" => pure .isSubscribed
  | "scope" => pure .hold
  | "unscope" => pure .letGo
  | "apply" => do
    let (channel, payload) ← decodeMessage n d
    pure (.apply channel payload)
  | "publish" => do pure (.publish (← (d.itemsAt "messages").mapM (decodeMessage n)))
  | _ => .error .mismatched

/-- What a decoder of operations makes of a document that it cannot read, too. -/
def Op.orUnreadable (decode : Document → Except DecodeFault Op) (d : Document) : Op :=
  match decode d with
  | .ok op => op
  | .error _ => .unreadable (((required "do" string 1 d).toOption).getD "")

/-- The fault that an error stands for. -/
def decodeFault (now : Time) : Decoder BackendFault := fun n d ↦ do
  let message ← defaulted "message" string "" n d
  match ← defaulted "kind" string "error" n d with
  | "claim_conflict" => pure (.claimConflict message)
  | "version_conflict" => do
    pure (.versionConflict message (← allowed "current" (Reviewable.decode now) n d))
  | "decode" => pure (.undecodable message)
  | kind => do
    let status ← defaulted "status" uint64 500 n d
    pure (.rejected status.toNat kind message)

/-- An error, or what a decoder makes of the whole reply. -/
def decodeAnswer {α : Type} (now : Time) (decode : Decoder α) :
    Decoder (Except BackendFault α) := fun n d ↦
  match d.member? "err" with
  | some err => do pure (.error (← decodeFault now n err))
  | none => do pure (.ok (← decode n d))

/-- A reply of an endpoint, given the operations that are done before it. -/
def Reply.decode (now : Time) (endpoint : String) (ops : List Op) : Decoder Reply := fun n d ↦
  let reviewable := Reviewable.decode now
  match endpoint with
  | "perform" => do
    pure (.perform ops (← decodeAnswer now (required "ok" (PerformResult.decode now)) n d))
  | "claim" => do pure (.claim ops (← decodeAnswer now (required "ok" Claim.decode) n d))
  | "release" => do pure (.release ops (← decodeAnswer now (fun _ _ ↦ .ok ()) n d))
  | "fetch" => do pure (.fetch ops (← decodeAnswer now (required "ok" reviewable) n d))
  | "list" => do pure (.list ops (← decodeAnswer now (required "ok" (Decoder.list reviewable)) n d))
  | "update" => do pure (.update ops (← decodeAnswer now (required "ok" reviewable) n d))
  | "prompt" => match d with
    | .bool b => pure (.confirm ops b)
    | _ => do pure (.confirm ops (← defaulted "answer" bool true n d))
  | _ => .error .mismatched

/-- An operation, whose replies may hold operations again. -/
def Op.decode (now : Time) : Nat → (Document → Except DecodeFault Op)
  | 0 => fun _ ↦ .error .malformed
  | n + 1 => fun d ↦ do
    match ← required "do" string n d, d.member? "reply" with
    | "reply", some reply =>
      let endpoint ← required "endpoint" string n d
      let ops := (reply.itemsAt "during").map (orUnreadable (decode now n))
      pure (.addReply (← Reply.decode now endpoint ops n reply))
    | _, _ => decodePlain now n d

/-- An operation to do, whether it can be read or not. -/
def Op.ofDocument (now : Time) (levels : Nat) (d : Document) : Op :=
  orUnreadable (decode now levels) d

/-- What is done before an answer is given. -/
def meanwhileOf (now : Time) (levels : Nat) (d : Document) : List Op :=
  (d.itemsAt "during").map (Op.ofDocument now levels)

/-- Replies, listed for each endpoint. -/
def decodeReplies (now : Time) : Decoder (List Reply) := fun n d ↦ do
  let lists ← d.namedMembers.mapM fun (endpoint, queue) ↦
    queue.items.mapM fun reply ↦ Reply.decode now endpoint (meanwhileOf now n reply) n reply
  pure lists.flatten

/-- A form is null if it is always closed, and known up front if its answers are `static`. -/
def Form.decode (now : Time) : Decoder Form := fun n d ↦
  match d, d.member? "static" with
  | .null, _ => .ok ⟨true, [], none⟩
  | _, some values => do pure ⟨true, [], ← optional fields n values⟩
  | _, none => do pure ⟨false, meanwhileOf now n d, ← allowed "values" fields n d⟩

/-- The fields to send with, null for none. -/
def decodeSends : Decoder (List Fields) := fun n d ↦
  (d.itemsAt "send").mapM fun more ↦ (optional fields n more).map (·.getD ∅)

/-- The fault of a workflow that is told to fail. -/
def scriptedFault : SessionFault := .unregisteredWorkflow "scripted failure"

def ClientWorkflow.decode (now : Time) : Decoder ClientWorkflow := fun n d ↦ do
  let fails ← defaulted "fail" bool false n d
  pure {
    meanwhile := meanwhileOf now n d
    sends := ← decodeSends n d
    ignoresErrors := ← defaulted "ignore_errors" bool false n d
    fault := if fails then some scriptedFault else none }

def PenaltyTool.decode (now : Time) : Decoder PenaltyTool := fun n d ↦ do
  pure ⟨meanwhileOf now n d, ← decodeSends n d, ← defaulted "success" bool false n d⟩

def Editor.decode (now : Time) : Decoder Editor := fun n d ↦ do
  pure ⟨meanwhileOf now n d, ← defaulted "editable" bool true n d⟩

end Moderation.Rehearsal
