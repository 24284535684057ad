import Moderation.Proofs.Http.Plain

/-!
# Reviewables there and back

A reviewable with plain fields is read back as it was written, from the text and from the value
alike. A text is read to a fixed depth, of which the reviewable itself takes one level; a value is
read to any depth.
-/

namespace Moderation.Reviewable

variable {r s : Reviewable} {levels more : Nat}

section Plain

variable (created : r.createdAt.isValid = true)
  (apart : ∀ (name : String) (value : Json), r.fields[name]? = some value →
    ∀ key : Key, key.name ≠ name)

include created apart

/-- A reader with levels enough makes of a reviewable with plain fields that reviewable. -/
theorem reads_self (plain : r.fields.ArePlain levels) (now : Time) (enough : levels < more)
    (least : 3 ≤ more) : (decode now).Reads more r.toJson r := by
  -- Three levels are what the user of a claim takes, whatever the fields are.
  obtain ⟨less, rfl⟩ := Nat.exists_eq_add_of_le' least
  have hplain : r.fields.ArePlain (less + 2) := plain.mono (Nat.le_of_lt_succ enough)
  have hlegible : r.IsLegible (less + 2) :=
    ⟨created, apart, fun name value hget ↦ (hplain name value hget).isLegible⟩
  have hreads : (decode now).Reads (less + 3) r.toJson r.reread := hlegible.reads now
  rwa [reread_eq hplain] at hreads

/-- A reviewable comes back from its text and from its value. -/
theorem decode_toJson (plain : r.fields.ArePlain (Json.depth - 1)) (now : Time) :
    Json.decode (decode now) r.toJson.text = .ok r ∧
      ∀ levels, Json.depth ≤ levels →
        decode now levels r.toJson.normalize.toDocument = .ok r := by
  constructor
  · apply Decoder.Reads.decode_text
    exact reads_self created apart plain now (by decide) (by decide)
  · intro levels deep
    have henough : Json.depth - 1 < levels :=
      Nat.lt_of_lt_of_le (show Json.depth - 1 < Json.depth by decide) deep
    have hleast : 3 ≤ levels := le_trans (by decide) deep
    exact reads_self created apart plain now henough hleast true

end Plain

/-- A claim, an action, the greatest and the least number and the first nanosecond of a year all
come back. -/
theorem decode_toJson_of_claimed :
    let r := { Reviewable.dated ⟨18446744073709551615⟩ (some 10) with
      status := .rejected
      claim := some ⟨.alice, true⟩
      author := some .bob
      sendEmail := some false
      createdAt := ⟨0, 1, 1, 0, 0, 0, 1⟩
      actions := [⟨"reject_post", some "Reject", none, some "Sure?", true, none⟩]
      fields := Fields.ofMembers
        [("payload", .ofFields (Fields.ofMembers
            [("n", .number (.integer (-9223372036854775808)))])),
          ("Type", .array [.null, .string "é"])] }
    Json.decode (decode default) r.toJson.text = .ok r ∧
      decode default 200 r.toJson.normalize.toDocument = .ok r := by
  intro r
  have hcases : ∀ (name : String) (value : Json), r.fields[name]? = some value →
      (name = "payload" ∧ value = .ofFields (Fields.ofMembers
        [("n", .number (.integer (-9223372036854775808)))])) ∨
      (name = "Type" ∧ value = .array [.null, .string "é"]) := by
    intro name value hget
    simpa using Fields.mem_of_getElem?_ofMembers hget
  have hplain : r.fields.ArePlain (Json.depth - 1) := by
    intro name value hget
    obtain ⟨-, rfl⟩ | ⟨-, rfl⟩ := hcases name value hget
    · refine .object fun name value hget ↦ ?_
      obtain ⟨-, rfl⟩ :=
        Prod.mk.inj (List.mem_singleton.mp (Fields.mem_of_getElem?_ofMembers hget))
      exact .integer (by decide)
    · exact .array (by simpa using ⟨.null, .string _⟩)
  have hapart : ∀ (name : String) (value : Json), r.fields[name]? = some value →
      ∀ key : Key, key.name ≠ name := by
    intro name value hget
    obtain ⟨rfl, -⟩ | ⟨rfl, -⟩ := hcases name value hget
    · rintro ⟨⟩ <;> decide
    · rintro ⟨⟩ <;> decide
  obtain ⟨htext, hvalue⟩ := decode_toJson (r := r) (by decide) hapart hplain default
  exact ⟨htext, hvalue 200 (by decide)⟩

/-- Plain reviewables are told apart by their texts. -/
theorem eq_of_text_eq (hr : r.IsPlain) (hs : s.IsPlain) (h : r.toJson.text = s.toJson.text) :
    r = s := by
  have hread : ∀ {t : Reviewable}, t.IsPlain →
      Json.decode (decode default) t.toJson.text = .ok t := by
    intro t ht
    apply Decoder.Reads.decode_text
    exact reads_self ht.created ht.apart ht.fields default (by decide) (by decide)
  have hsame := hread hr
  rw [h, hread hs] at hsame
  exact (Except.ok.inj hsame).symm

end Moderation.Reviewable
