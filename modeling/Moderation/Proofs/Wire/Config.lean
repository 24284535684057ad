import Moderation.Proofs.Document.Record
import Moderation.Proofs.Json.Plain
import Moderation.Wire.Config

/-!
# Configuration files that come back

A configuration file comes back from what is written of it, tables with their entries in the order
of the names.
-/

namespace Moderation

namespace Decoder

variable {α : Type} {decode : Decoder α} {levels : Nat}

/-- A table is written with its entries in order, however objects are written. -/
theorem written_table (sorted : Bool) (encode : α → Json) (t : Std.ExtTreeMap String α) :
    (Json.object (t.toList.map fun entry ↦ (entry.1, encode entry.2))).written sorted =
      .object (t.toList.map fun entry ↦ (entry.1, (encode entry.2).written sorted)) := by
  have hmembers (f : α → Json) : t.toList.map (fun entry ↦ (entry.1, f entry.2)) =
      Fields.members (t.map fun _ ↦ f) := by
    rw [Fields.members, Std.ExtTreeMap.toList_map]
  cases sorted with
  | false => rfl
  | true =>
    calc
      _ = Json.ofFields (Fields.ofMembers
          (t.toList.map fun entry ↦ (entry.1, (encode entry.2).normalize))) := by
        change Json.ofFields (Fields.ofMembers (Json.normalizeMembers _)) = _
        rw [Json.normalizeMembers_eq, List.map_map]
        rfl
      _ = _ := by
        rw [hmembers fun a ↦ (encode a).normalize, Fields.ofMembers_members, Json.ofFields,
          ← hmembers]
        rfl

theorem reads_map {encode : α → Json} (h : ∀ a, decode.Reads levels (encode a) a)
    (t : Std.ExtTreeMap String α) :
    (map decode).Reads (levels + 1)
      (.object (t.toList.map fun entry ↦ (entry.1, encode entry.2))) t := by
  intro sorted
  have hentry (entry : String × α) : (do
      let value ← decode levels ((encode entry.2).written sorted).toDocument
      pure (entry.1, value)) = Except.ok entry := by
    rw [h entry.2 sorted]
    rfl
  have hread : Decoder.members decode (levels + 1) (Json.object
      (t.toList.map fun entry ↦ (entry.1, (encode entry.2).written sorted))).toDocument =
        .ok t.toList := by
    rw [Json.toDocument, toMembers_eq, List.map_map]
    change (do
      let values ← (t.toList.map _).mapM _
      checkEnding .bracket
      pure values) = _
    rw [List.mapM_map, mapM_eq_ok (g := id), List.map_id]
    · rfl
    · exact fun entry _ ↦ hentry entry
  rw [written_table, map, hread]
  exact congrArg Except.ok (Table.ofList_toList t)

theorem reads_claimMode (mode : ClaimMode) : claimMode.Reads levels mode.toJson mode :=
  reads_choice (ClaimMode.ofName?_name mode)

end Decoder

namespace Config.File

open Decoder

variable {levels : Nat}

def members (file : File) : List (String × Json) :=
  [("claim_mode", file.mode.toJson),
    ("action_workflows", .object (file.forms.toList.map fun (k, v) ↦ (k, .string v))),
    ("type_params",
      .object (file.parameters.toList.map fun (k, names) ↦ (k, .array (names.map .string))))]

def draft (file : File) : record.Draft
  | .mode => some file.mode
  | .forms => some file.forms
  | .parameters => some file.parameters

theorem record_isKeyed : record.IsKeyed := by rintro (_ | _ | _) <;> rfl

theorem tells_members (file : File) : record.Tells (levels + 2) file.members file.draft := by
  have hnames (names : List String) :
      (list string).Reads (levels + 1) (.array (names.map .string)) names := by
    have hread : (list string).Reads (levels + 1) (.array (names.map .string))
        (names.map fun name ↦ name) := reads_list fun name _ ↦ reads_string name
    rwa [List.map_id'] at hread
  rintro (_ | _ | _)
  · exact ⟨_, by simp [members], reads_claimMode file.mode⟩
  · exact ⟨_, by simp [members], reads_map reads_string file.forms⟩
  · exact ⟨_, by simp [members], reads_map hnames file.parameters⟩

theorem reads (file : File) : decode.Reads (levels + 3) file.toJson file :=
  (Record.reads_decode record_isKeyed file.tells_members
    (show (record.keys.map record.name).Nodup by decide)).bind rfl

/-- A file comes back from its text. -/
theorem decode_text (file : File) : Json.decode decode file.toJson.text = .ok file :=
  file.reads.decode_text

end Config.File

end Moderation
