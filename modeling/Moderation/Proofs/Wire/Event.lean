import Moderation.Proofs.Wire.Result
import Moderation.Wire.Event

/-!
# Events that come back

An event comes back from the name of its channel and its payload, and from no more than that: a
count that is not known is not written, while a claim is written even where there is none.
-/

namespace Moderation

open Decoder

namespace ClaimTransfer

variable {levels : Nat}

def members (event : ClaimTransfer) : List (String × Json) :=
  [("topic_id", event.topic.toJson), ("user", .ofOption User.toJson event.user),
    ("automatic", .ofOption .bool event.automatic)]

def draft (event : ClaimTransfer) : record.Draft
  | .topic => some event.topic
  | .user => some event.user
  | .automatic => some event.automatic

theorem record_isKeyed : record.IsKeyed := by rintro (_ | _ | _) <;> rfl

theorem tells_members (event : ClaimTransfer) :
    record.Tells (levels + 1) event.members event.draft := by
  rintro (_ | _ | _)
  · exact ⟨_, by simp [members], reads_topicId event.topic⟩
  · exact ⟨_, by simp [members], reads_optional (fun user _ ↦ user.reads) nofun⟩
  · exact ⟨_, by simp [members], reads_optional (fun b _ ↦ reads_bool b) nofun⟩

theorem reads (event : ClaimTransfer) : decode.Reads (levels + 2) event.toJson event :=
  (Record.reads_decode record_isKeyed event.tells_members
    (show (record.keys.map record.name).Nodup by decide)).bind rfl

end ClaimTransfer

namespace ActionCompleted

variable {levels : Nat}

def members (event : ActionCompleted) : List (String × Json) :=
  ("remove_reviewable_ids", .array (event.removed.map ReviewableId.toJson)) ::
    (Json.memberOf "reviewable_count" .ofUInt64 event.count ++
      Json.memberOf "unseen_reviewable_count" .ofUInt64 event.unseen)

def draft (event : ActionCompleted) : record.Draft
  | .removed => some event.removed
  | .count => event.count.map some
  | .unseen => event.unseen.map some

theorem record_isKeyed : record.IsKeyed := by rintro (_ | _ | _) <;> rfl

theorem distinct_members (event : ActionCompleted) : Fields.AreDistinct event.members := by
  have hsublist : (event.members.map Prod.fst).Sublist (record.keys.map record.name) := by
    simp only [members, List.map_cons, List.map_append]
    exact List.Sublist.cons_cons _
      ((Json.map_fst_memberOf_sublist _ _ _).append (Json.map_fst_memberOf_sublist _ _ _))
  exact List.Nodup.sublist hsublist (by decide)

theorem tells_members (event : ActionCompleted) :
    record.Tells (levels + 1) event.members event.draft := by
  rintro (_ | _ | _)
  · exact ⟨_, by simp [members], reads_reviewableIds event.removed⟩
  · exact finds_of_mem_iff (fun value ↦ by simp [members, Json.mem_memberOf_iff])
      (fun count _ ↦ reads_uint64 count) nofun
  · exact finds_of_mem_iff (fun value ↦ by simp [members, Json.mem_memberOf_iff])
      (fun count _ ↦ reads_uint64 count) nofun

theorem reads (event : ActionCompleted) : decode.Reads (levels + 2) event.toJson event := by
  refine (Record.reads_decode record_isKeyed event.tells_members event.distinct_members).bind ?_
  obtain ⟨removed, count, unseen⟩ := event
  cases count <;> cases unseen <;> rfl

end ActionCompleted

namespace Event

/-- What comes on the channel for reloads is a reload, whatever it carries. -/
theorem decode_resync (payload : String) : decode resyncChannel payload = .ok (some .resync) :=
  rfl

/-- An event comes back from its payload on its channel. -/
theorem decode_payloadText (event : Event) :
    decode event.channel event.payloadText = .ok (some event) := by
  cases event with
  | claimTransfer event =>
    have hread : Json.decode ClaimTransfer.decode event.toJson.text = .ok event :=
      event.reads.decode_text
    rw [decode, channel, if_pos rfl, payloadText, payload, hread]
    rfl
  | actionCompleted event =>
    have hread : Json.decode ActionCompleted.decode event.toJson.text = .ok event :=
      event.reads.decode_text
    rw [decode, channel, if_neg (by decide), if_pos rfl, payloadText, payload, hread]
    rfl
  | resync => exact decode_resync _

end Event

end Moderation
