import Moderation.Proofs.Wire.Reviewable
import Moderation.Wire.Result

/-!
# Results that come back

The result of an action comes back from its envelope. What it does not say is not written, and is
missing when it is read.
-/

namespace Moderation

namespace Json

variable {α : Type} {name other : String} {encode : α → Json} {x : Option α} {value : Json}

theorem mem_memberOf_iff :
    (other, value) ∈ memberOf name encode x ↔
      other = name ∧ ∃ a, x = some a ∧ value = encode a := by
  cases x <;> simp [memberOf]

theorem map_fst_memberOf_sublist (name : String) (encode : α → Json) (x : Option α) :
    ((memberOf name encode x).map Prod.fst).Sublist [name] := by
  cases x <;> simp [memberOf]

end Json

namespace Decoder

theorem reads_reviewableIds {levels : Nat} (ids : List ReviewableId) :
    (list reviewableId).Reads (levels + 1) (.array (ids.map ReviewableId.toJson)) ids := by
  have hread : (list reviewableId).Reads (levels + 1) (.array (ids.map ReviewableId.toJson))
      (ids.map fun id ↦ id) := reads_list fun id _ ↦ reads_reviewableId id
  rwa [List.map_id'] at hread

end Decoder

namespace PerformResult

variable {levels : Nat}

def members (result : PerformResult) : List (String × Json) :=
  ("success", .bool result.success) ::
    (Json.memberOf "transition_to" Status.toJson result.status ++
      Json.memberOf "version" .ofUInt64 result.version ++
      Json.memberOf "reviewable" Reviewable.toJson result.reviewable ++
      Json.memberOf "remove_reviewable_ids" (fun ids ↦ .array (ids.map ReviewableId.toJson))
        result.removed ++
      Json.memberOf "reviewable_count" .ofUInt64 result.count ++
      Json.memberOf "unseen_reviewable_count" .ofUInt64 result.unseen)

/-- The result as it comes back. -/
def reread (result : PerformResult) : PerformResult :=
  { result with reviewable := result.reviewable.map Reviewable.reread }

def draft (now : Time) (result : PerformResult) : (record now).Draft
  | .success => some result.success
  | .status => result.status.map some
  | .version => result.version.map some
  | .reviewable => result.reviewable.map fun r ↦ some r.reread
  | .removed => result.removed.map some
  | .count => result.count.map some
  | .unseen => result.unseen.map some

theorem record_isKeyed (now : Time) : (record now).IsKeyed := by
  rintro (_ | _ | _ | _ | _ | _ | _) <;> rfl

theorem ofDraft_draft (now : Time) (result : PerformResult) :
    ofDraft (result.draft now) = result.reread := by
  obtain ⟨success, status, version, reviewable, removed, count, unseen⟩ := result
  cases status <;> cases version <;> cases reviewable <;> cases removed <;> cases count <;>
    cases unseen <;> rfl

theorem distinct_members (result : PerformResult) : Fields.AreDistinct result.members := by
  have hsublist : (result.members.map Prod.fst).Sublist
      ["success", "transition_to", "version", "reviewable", "remove_reviewable_ids",
        "reviewable_count", "unseen_reviewable_count"] := by
    simp only [members, List.map_cons, List.map_append]
    refine List.Sublist.cons_cons _ ?_
    exact ((((Json.map_fst_memberOf_sublist _ _ _).append (Json.map_fst_memberOf_sublist _ _ _)).append
      (Json.map_fst_memberOf_sublist _ _ _)).append (Json.map_fst_memberOf_sublist _ _ _)).append
        (Json.map_fst_memberOf_sublist _ _ _) |>.append (Json.map_fst_memberOf_sublist _ _ _)
  exact List.Nodup.sublist hsublist (by decide)

open Decoder

theorem tells_members {result : PerformResult}
    (legible : ∀ r, result.reviewable = some r → r.IsLegible (levels + 2)) (now : Time) :
    (record now).Tells (levels + 3) result.members (result.draft now) := by
  rintro (_ | _ | _ | _ | _ | _ | _)
  · exact ⟨_, by simp [members], reads_bool result.success⟩
  · exact finds_of_mem_iff (fun value ↦ by simp [members, Json.mem_memberOf_iff])
      (fun status _ ↦ reads_status status) nofun
  · exact finds_of_mem_iff (fun value ↦ by simp [members, Json.mem_memberOf_iff])
      (fun version _ ↦ reads_uint64 version) nofun
  · exact finds_of_mem_iff (fun value ↦ by simp [members, Json.mem_memberOf_iff])
      (fun r hr ↦ (legible r hr).reads now) Reviewable.toJson_ne_null
  · exact finds_of_mem_iff (fun value ↦ by simp [members, Json.mem_memberOf_iff])
      (fun ids _ ↦ reads_reviewableIds ids) nofun
  · exact finds_of_mem_iff (fun value ↦ by simp [members, Json.mem_memberOf_iff])
      (fun count _ ↦ reads_uint64 count) nofun
  · exact finds_of_mem_iff (fun value ↦ by simp [members, Json.mem_memberOf_iff])
      (fun count _ ↦ reads_uint64 count) nofun

/-- A result with a legible reviewable comes back. -/
theorem reads {result : PerformResult}
    (legible : ∀ r, result.reviewable = some r → r.IsLegible (levels + 2)) (now : Time) :
    (decode now).Reads (levels + 4) result.toJson result.reread := by
  have hread := Record.reads_decode (record_isKeyed now) (tells_members legible now)
    result.distinct_members
  rw [← ofDraft_draft now]
  exact hread.bind rfl

theorem envelope_isKeyed (now : Time) : (envelope now).IsKeyed := by
  rintro ⟨⟩
  rfl

theorem reads_envelope {result : PerformResult}
    (legible : ∀ r, result.reviewable = some r → r.IsLegible (levels + 2)) (now : Time) :
    (decodeEnvelope now).Reads (levels + 5) result.toEnvelope result.reread := by
  have htells : (envelope now).Tells (levels + 4)
      [("reviewable_perform_result", result.toJson)] fun _ ↦ some result.reread := by
    rintro ⟨⟩
    exact ⟨_, by simp, reads legible now⟩
  exact (Record.reads_decode (envelope_isKeyed now) htells
    (show ["reviewable_perform_result"].Nodup by decide)).bind rfl

end PerformResult

end Moderation
