import Moderation.Http.Client
import Moderation.Proofs.Queue.Legible
import Moderation.Proofs.Session.Alone
import Moderation.Proofs.Wire.Result

/-!
# What a client reads

A client reads the answer of the queue off a response, and the fault off a refusal. Reviewables in
them come back as reviewables do, and everything else as it is.
-/

namespace Moderation

def BackendFault.reread : BackendFault → BackendFault
  | versionConflict message current => versionConflict message (current.map Reviewable.reread)
  | fault => fault

namespace Request

/-- The answer to a request as it comes back. -/
def rereadAnswer : (request : Request) → request.Answer → request.Answer
  | .perform .., result => result.reread
  | .claim .., taken => taken
  | .release .., () => ()
  | .fetch _, r => r.reread
  | .list, rs => rs.map Reviewable.reread
  | .update .., r => r.reread

/-- The reply to a request as it comes back. -/
def rereadReply (request : Request) : request.Reply → request.Reply
  | .ok answer => .ok (request.rereadAnswer answer)
  | .error fault => .error fault.reread

/-- The reviewables in a reply. -/
def carried : (request : Request) → request.Reply → List Reviewable
  | .perform .., .ok result => result.reviewable.toList
  | .fetch _, .ok r => [r]
  | .list, .ok rs => rs
  | .update .., .ok r => [r]
  | _, .error (.versionConflict _ current) => current.toList
  | _, _ => []

end Request

theorem Reviewable.IsLegible.mono {r : Reviewable} {levels more : Nat} (h : r.IsLegible levels)
    (le : levels ≤ more) : r.IsLegible more :=
  ⟨h.created, h.apart, fun name value hget ↦ Json.isLegible_mono (h.fields name value hget) le⟩

namespace Http

open Decoder

variable {levels : Nat}

namespace Client

theorem envelope_isKeyed {α : Type} (name : String) (decode : Decoder α) :
    (envelope name decode).IsKeyed := by
  rintro ⟨⟩
  simp [Record.key?]

/-- The member of an envelope is read, whatever stands beside it. -/
theorem reads_unwrap {α : Type} {name : String} {decode : Decoder α} {value : Json} {result : α}
    {members : List (String × Json)} (member : (name, value) ∈ members)
    (reads : decode.Reads levels value result) (distinct : Fields.AreDistinct members) :
    (unwrap name decode).Reads (levels + 1) (.object members) result := by
  have htells : (envelope name decode).Tells levels members fun _ ↦ some result := by
    rintro ⟨⟩
    exact ⟨value, member, reads⟩
  exact (Record.reads_decode (envelope_isKeyed name decode) htells distinct).bind rfl

theorem reads_acknowledgement {members : List (String × Json)}
    (distinct : Fields.AreDistinct members) :
    Reads (fun levels d ↦ (acknowledgement.decode levels d).map fun _ ↦ ()) (levels + 1)
      (.object members) () := by
  have htells : acknowledgement.Tells levels members acknowledgement.blank := by rintro ⟨⟩
  have hkeyed : acknowledgement.IsKeyed := by rintro ⟨⟩
  exact (Record.reads_decode hkeyed htells distinct).map fun _ ↦ ()

variable {now : Time} {request : Moderation.Request} {answer : request.Answer}

theorem decode_of_body {response : Response} (success : response.isSuccess = true)
    (body : Json.decode (answerDecoder now request) response.body = .ok answer) :
    decode now request response = .ok answer := by
  rw [decode, if_pos success, body]

theorem decode_of_reads {value : Json}
    (h : (answerDecoder now request).Reads Json.depth value answer) :
    decode now request (.ofJson 200 value) = .ok answer :=
  decode_of_body rfl h.decode_normalized

/-- The response that carries a legible answer is read as the answer. -/
theorem decode_responseTo
    (legible : ∀ r ∈ request.carried (.ok answer), r.IsLegible fieldLevels) (now : Time) :
    decode now request (Service.responseTo request answer) = .ok (request.rereadAnswer answer) := by
  cases request with
  | perform id action version data =>
    have hlegible : ∀ r, answer.reviewable = some r → r.IsLegible fieldLevels :=
      fun r hr ↦ legible r (Option.mem_toList.mpr hr)
    have hreads := PerformResult.reads_envelope hlegible now
    exact decode_of_body rfl hreads.decode_text
  | claim topic automatic =>
    have hreads : Claim.decode.Reads 126 answer.toJson answer := answer.reads
    exact decode_of_reads (reads_unwrap List.mem_cons_self hreads
      (show ["claimed_by"].Nodup by decide))
  | release topic automatic =>
    exact decode_of_reads (reads_acknowledgement (show ["success"].Nodup by decide))
  | fetch id =>
    have hreads : (Reviewable.decode now).Reads 126 answer.toJson answer.reread :=
      ((legible answer List.mem_cons_self).mono (Nat.le_succ _)).reads now
    exact decode_of_reads (reads_unwrap List.mem_cons_self hreads
      (show ["reviewable"].Nodup by decide))
  | list =>
    have hreads : (list (Reviewable.decode now)).Reads 126 (.array (answer.map Reviewable.toJson))
        (answer.map Reviewable.reread) := reads_list fun r hr ↦ (legible r hr).reads now
    exact decode_of_reads (reads_unwrap List.mem_cons_self hreads
      (show ["reviewables", "reviewable_count"].Nodup by decide))
  | update id version updates =>
    have hreads : (Reviewable.decode now).Reads 126 answer.toJson answer.reread :=
      ((legible answer List.mem_cons_self).mono (Nat.le_succ _)).reads now
    exact decode_of_reads (reads_unwrap List.mem_cons_self hreads
      (show ["reviewable"].Nodup by decide))

/-- What the body of an error holds. -/
def errorDraft (now : Time) (message kind : String) (current : Option Reviewable) :
    (errorBody now).Draft
  | .error => some (some message)
  | .kind => some (some kind)
  | .reviewable => current.map fun r ↦ some r.reread

/-- The body of an error is read, with a reviewable or without one. -/
theorem reads_errorBody (now : Time) (message kind : String) {current : Option Reviewable}
    (legible : ∀ r, current = some r → r.IsLegible (levels + 2)) :
    (errorBody now).decode.Reads (levels + 4)
      (Rejection.errorBody message kind (Json.memberOf "reviewable" Reviewable.toJson current))
      (errorDraft now message kind current) := by
  have htells : (errorBody now).Tells (levels + 3)
      (("error", .string message) :: ("error_type", .string kind) ::
        Json.memberOf "reviewable" Reviewable.toJson current)
      (errorDraft now message kind current) := by
    rintro (_ | _ | _)
    · exact ⟨_, by simp, (reads_string message).some nofun⟩
    · exact ⟨_, by simp, (reads_string kind).some nofun⟩
    · exact finds_of_mem_iff (fun value ↦ by simp [Json.mem_memberOf_iff])
        (fun r hr ↦ (legible r hr).reads now) Reviewable.toJson_ne_null
  have hkeyed : (errorBody now).IsKeyed := by rintro (_ | _ | _) <;> rfl
  refine Record.reads_decode hkeyed htells ?_
  have hsublist : (["error", "error_type"] ++
      (Json.memberOf "reviewable" Reviewable.toJson current).map Prod.fst).Sublist
        ["error", "error_type", "reviewable"] :=
    (List.Sublist.refl _).append (Json.map_fst_memberOf_sublist _ _ _)
  exact List.Nodup.sublist hsublist (by decide)

theorem faultOf_of_reads {status : Nat} {value : Json} {message kind : String}
    {current : Option Reviewable}
    (h : (errorBody now).decode.Reads Json.depth value (errorDraft now message kind current)) :
    faultOf now (.ofJson status value) = match some kind with
      | some "version_conflict" => .versionConflict message (current.map Reviewable.reread)
      | some "claim_conflict" => .claimConflict message
      | kind => .rejected status (kind.getD "error") message := by
  have hbody : Json.decode (errorBody now).decode (Response.ofJson status value).body =
      .ok (errorDraft now message kind current) := h.decode_normalized
  have hjoin : (current.map fun r ↦ some r.reread).join = current.map Reviewable.reread := by
    cases current <;> rfl
  rw [faultOf, hbody, ← hjoin]
  rfl

end Client

/-- The reviewable that goes with a refusal. -/
def currentOf (q : Queue) : Refusal → Option Reviewable
  | .versionConflict id _ _ => q.items[id]?
  | _ => none

theorem refusalResponse_eq (q : Queue) (refusal : Refusal) :
    Service.refusalResponse q refusal = .ofJson refusal.status
      (Rejection.errorBody refusal.message refusal.kind
        (Json.memberOf "reviewable" Reviewable.toJson (currentOf q refusal))) := by
  unfold Service.refusalResponse currentOf
  cases refusal with
  | versionConflict id expected current =>
    dsimp only
    cases q.items[id]? <;> rfl
  | notFound | alreadyResolved | claimConflict | claimRequired | unknownAction => rfl

theorem isLegible_currentOf {q : Queue} (legible : q.IsLegible) {refusal : Refusal} {r : Reviewable}
    (h : currentOf q refusal = some r) : r.IsLegible fieldLevels := by
  cases refusal with
  | versionConflict id expected current => exact legible id r h
  | notFound | alreadyResolved | claimConflict | claimRequired | unknownAction => cases h

theorem not_isSuccess_refusal (refusal : Refusal) (value : Json) :
    ¬ (Response.ofJson refusal.status value).isSuccess = true := by
  cases refusal <;> exact Bool.false_ne_true

namespace Client

/-- The response that carries a refusal is read as the fault that it is. -/
theorem decode_refusalResponse {q : Queue} (legible : q.IsLegible) (refusal : Refusal) (now : Time)
    (request : Moderation.Request) :
    decode now request (Service.refusalResponse q refusal) = .error (refusal.fault q).reread := by
  have hcurrent : ∀ r, currentOf q refusal = some r → r.IsLegible (fieldLevels + 1) :=
    fun r hr ↦ (isLegible_currentOf legible hr).mono (Nat.le_succ _)
  rw [refusalResponse_eq, decode, if_neg (not_isSuccess_refusal refusal _),
    faultOf_of_reads (reads_errorBody now refusal.message refusal.kind hcurrent)]
  cases refusal <;> rfl

end Client

end Http

end Moderation
