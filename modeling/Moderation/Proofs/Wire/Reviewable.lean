import Moderation.Proofs.Document.Record
import Moderation.Proofs.Time
import Moderation.Wire.Reviewable

/-!
# Reviewables that come back

Every attribute of a reviewable comes back from its written form. The fields do as values do, as
long as none of them has the name of an attribute.
-/

namespace Moderation

variable {levels : Nat}

namespace Decoder

theorem reads_reviewableId (id : ReviewableId) : reviewableId.Reads levels id.toJson id :=
  (reads_uint64 id.value).map ReviewableId.mk

theorem reads_topicId (topic : TopicId) : topicId.Reads levels topic.toJson topic :=
  (reads_uint64 topic.value).map TopicId.mk

theorem reads_userId (id : UserId) : userId.Reads levels (.ofUInt64 id.value) id :=
  (reads_uint64 id.value).map UserId.mk

theorem reads_status (s : Status) : status.Reads levels s.toJson s :=
  reads_choice s.ofName?_name

/-- A time is written as text, and read back if it is valid. -/
theorem reads_time {t : Time} (h : t.isValid = true) : time.Reads levels (.string t.text) t := by
  refine (reads_string t.text).bind ?_
  simp only [Time.ofText?_text h]

end Decoder

open Decoder

namespace User

/-- The draft of a user that was read whole. -/
def draft (user : User) : record.Draft
  | .id => some user.id
  | .username => some user.username

theorem record_isKeyed : record.IsKeyed := by rintro (_ | _) <;> rfl

theorem reads (user : User) : decode.Reads (levels + 1) user.toJson user := by
  have htells : record.Tells levels
      [("id", .ofUInt64 user.id.value), ("username", .string user.username)] user.draft := by
    rintro (_ | _)
    · exact ⟨_, by simp, reads_userId user.id⟩
    · exact ⟨_, by simp, reads_string user.username⟩
  exact (Record.reads_decode record_isKeyed htells
    (show (record.keys.map record.name).Nodup by decide)).bind rfl

end User

namespace Claim

def draft (claim : Claim) : record.Draft
  | .user => some claim.user
  | .automatic => some claim.automatic

theorem record_isKeyed : record.IsKeyed := by rintro (_ | _) <;> rfl

theorem reads (claim : Claim) : decode.Reads (levels + 2) claim.toJson claim := by
  have htells : record.Tells (levels + 1)
      [("user", claim.user.toJson), ("automatic", .bool claim.automatic)] claim.draft := by
    rintro (_ | _)
    · exact ⟨_, by simp, claim.user.reads⟩
    · exact ⟨_, by simp, reads_bool claim.automatic⟩
  exact (Record.reads_decode record_isKeyed htells
    (show (record.keys.map record.name).Nodup by decide)).bind rfl

end Claim

namespace Action

def draft (action : Action) : record.Draft
  | .name => some action.name
  | .label => some action.label
  | .workflow => some action.workflow
  | .confirmation => some action.confirmation
  | .needsReason => some action.needsReason
  | .completion => some action.completion

theorem record_isKeyed : record.IsKeyed := by rintro (_ | _ | _ | _ | _ | _) <;> rfl

theorem reads_text (text : Option String) :
    (optional string).Reads levels (.ofOption .string text) text :=
  reads_optional (fun s _ ↦ reads_string s) nofun

theorem reads (action : Action) : decode.Reads (levels + 1) action.toJson action := by
  have htells : record.Tells levels
      [("server_action", .string action.name), ("label", .ofOption .string action.label),
        ("client_action", .ofOption .string action.workflow),
        ("confirm_message", .ofOption .string action.confirmation),
        ("require_reject_reason", .bool action.needsReason),
        ("completed_message", .ofOption .string action.completion)] action.draft := by
    rintro (_ | _ | _ | _ | _ | _)
    · exact ⟨_, by simp, reads_string action.name⟩
    · exact ⟨_, by simp, reads_text action.label⟩
    · exact ⟨_, by simp, reads_text action.workflow⟩
    · exact ⟨_, by simp, reads_text action.confirmation⟩
    · exact ⟨_, by simp, reads_bool action.needsReason⟩
    · exact ⟨_, by simp, reads_text action.completion⟩
  exact (Record.reads_decode record_isKeyed htells
    (show (record.keys.map record.name).Nodup by decide)).bind rfl

end Action

/-- The fields as they come back. -/
def Fields.reread (fields : Fields) : Fields := fields.map fun _ value ↦ value.reread

namespace Reviewable

/-- The reviewable as it comes back: only the fields go through a text. -/
def reread (r : Reviewable) : Reviewable := { r with fields := r.fields.reread }

/-- What a reviewable needs so that it can come back to a reader with so many levels left for its
fields. -/
structure IsLegible (levels : Nat) (r : Reviewable) : Prop where
  created : r.createdAt.isValid = true
  /-- No field has the name of an attribute. -/
  apart : ∀ (name : String) (value : Json), r.fields[name]? = some value →
    ∀ key : Key, key.name ≠ name
  fields : ∀ (name : String) (value : Json), r.fields[name]? = some value →
    value.isLegible levels = true

def draft (r : Reviewable) : record.Draft
  | .id => some r.id
  | .kind => some r.kind
  | .status => some r.status
  | .version => some r.version
  | .topic => some r.topic
  | .claim => some r.claim
  | .author => some r.author
  | .post => some r.post
  | .raw => some r.raw
  | .sendEmail => some r.sendEmail
  | .rejectReason => some r.rejectReason
  | .fromFlag => some r.fromFlag
  | .category => some r.category
  | .createdAt => some r.createdAt
  | .actions => some r.actions

theorem record_isKeyed : record.IsKeyed := by
  rintro (_ | _ | _ | _ | _ | _ | _ | _ | _ | _ | _ | _ | _ | _ | _) <;> rfl

/-- The attributes tell every key. -/
theorem tells_attributes (r : Reviewable) (created : r.createdAt.isValid = true) (key : Key) :
    ∃ v value, r.draft key = some v ∧ (key.name, value) ∈ r.attributes ∧
      (record.read key).Reads (levels + 2) value v := by
  cases key with
  | id => exact ⟨_, _, rfl, by simp [attributes, Key.name], reads_reviewableId r.id⟩
  | kind => exact ⟨_, _, rfl, by simp [attributes, Key.name], reads_string r.kind⟩
  | status => exact ⟨_, _, rfl, by simp [attributes, Key.name], reads_status r.status⟩
  | version => exact ⟨_, _, rfl, by simp [attributes, Key.name], reads_uint64 r.version⟩
  | topic => exact ⟨_, _, rfl, by simp [attributes, Key.name],
      reads_optional (fun topic _ ↦ reads_topicId topic) nofun⟩
  | claim => exact ⟨_, _, rfl, by simp [attributes, Key.name],
      reads_optional (fun claim _ ↦ claim.reads) nofun⟩
  | author => exact ⟨_, _, rfl, by simp [attributes, Key.name],
      reads_optional (fun user _ ↦ user.reads) nofun⟩
  | post => exact ⟨_, _, rfl, by simp [attributes, Key.name],
      reads_optional (fun post _ ↦ reads_uint64 post) nofun⟩
  | raw => exact ⟨_, _, rfl, by simp [attributes, Key.name],
      reads_optional (fun raw _ ↦ reads_string raw) nofun⟩
  | sendEmail => exact ⟨_, _, rfl, by simp [attributes, Key.name],
      reads_optional (fun send _ ↦ reads_bool send) nofun⟩
  | rejectReason => exact ⟨_, _, rfl, by simp [attributes, Key.name],
      reads_optional (fun reason _ ↦ reads_string reason) nofun⟩
  | fromFlag => exact ⟨_, _, rfl, by simp [attributes, Key.name], reads_bool r.fromFlag⟩
  | category => exact ⟨_, _, rfl, by simp [attributes, Key.name],
      reads_optional (fun category _ ↦ reads_uint64 category) nofun⟩
  | createdAt => exact ⟨_, _, rfl, by simp [attributes, Key.name], reads_time created⟩
  | actions =>
    have hread : (list Action.decode).Reads (levels + 2) (.array (r.actions.map Action.toJson))
        (r.actions.map fun action ↦ action) := reads_list fun action _ ↦ action.reads
    rw [List.map_id'] at hread
    exact ⟨_, _, rfl, by simp [attributes, Key.name], hread⟩

/-- Every attribute is written under the name of its key, once. -/
theorem map_fst_attributes (r : Reviewable) : r.attributes.map Prod.fst = Key.all.map Key.name :=
  rfl

/-- So the name of an attribute is the name of a key. -/
theorem exists_key_of_mem_attributes {r : Reviewable} {name : String} {value : Json}
    (h : (name, value) ∈ r.attributes) : ∃ key : Key, key.name = name := by
  have hname : name ∈ r.attributes.map Prod.fst := List.mem_map_of_mem h
  rw [map_fst_attributes] at hname
  obtain ⟨key, -, hkey⟩ := List.mem_map.mp hname
  exact ⟨key, hkey⟩

variable {r : Reviewable}

/-- The attributes and fields stand apart. -/
theorem IsLegible.distinct (h : r.IsLegible levels) :
    Fields.AreDistinct (r.attributes ++ r.fields.members) := by
  rw [Fields.AreDistinct, List.map_append, List.nodup_append]
  refine ⟨?_, r.fields.areDistinct_members, fun name hname field hfield ↦ ?_⟩
  · rw [map_fst_attributes]
    decide
  · rintro rfl
    obtain ⟨⟨_, value⟩, hvalue, rfl⟩ := List.mem_map.mp hfield
    rw [map_fst_attributes] at hname
    obtain ⟨key, -, hkey⟩ := List.mem_map.mp hname
    exact h.apart _ value (Fields.mem_members_iff.mp hvalue) key hkey

/-- A member without a key of its own is a field. -/
theorem IsLegible.mem_iff (h : r.IsLegible levels) {name : String} {value : Json} :
    record.key? name = none ∧ (name, value) ∈ r.attributes ++ r.fields.members ↔
      r.fields[name]? = some value := by
  rw [Record.key?_eq_none_iff record_isKeyed, List.mem_append, Fields.mem_members_iff]
  constructor
  · rintro ⟨hnone, hattribute | hfield⟩
    · obtain ⟨key, hkey⟩ := exists_key_of_mem_attributes hattribute
      exact absurd hkey (hnone key)
    · exact hfield
  · exact fun hfield ↦ ⟨h.apart name value hfield, .inr hfield⟩

/-- A legible reviewable comes back from what is written of it. -/
theorem IsLegible.reads (h : r.IsLegible (levels + 2)) (now : Time) :
    (decode now).Reads (levels + 3) r.toJson r.reread := by
  intro sorted
  have htells : record.Tells (levels + 2) (r.attributes ++ r.fields.members) r.draft := by
    intro key
    obtain ⟨v, value, hdraft, hmem, hreads⟩ := r.tells_attributes h.created key
    rw [hdraft]
    exact ⟨value, List.mem_append_left _ hmem, hreads⟩
  obtain ⟨others, hread, hdistinct, hothers⟩ := Record.decodeOpen_written record_isKeyed htells
    h.distinct (fun name value hmem hnone ↦ h.fields name value (h.mem_iff.mp ⟨hnone, hmem⟩)) sorted
  have hfields : Fields.ofMembers others = r.fields.reread := by
    refine Fields.ofMembers_eq_of_mem_iff hdistinct fun name value ↦ ?_
    rw [hothers, Fields.reread, Std.ExtTreeMap.getElem?_map, Option.map_eq_some_iff]
    constructor
    · rintro ⟨hnone, v, hmem, rfl⟩
      exact ⟨v, h.mem_iff.mp ⟨hnone, hmem⟩, rfl⟩
    · rintro ⟨v, hfield, rfl⟩
      obtain ⟨hnone, hmem⟩ := h.mem_iff.mpr hfield
      exact ⟨hnone, v, hmem, rfl⟩
  rw [decode, toJson, hread]
  change Except.ok { r with fields := Fields.ofMembers others } = _
  rw [hfields, reread]

theorem toJson_ne_null (r : Reviewable) : r.toJson ≠ .null := nofun

end Reviewable

end Moderation
