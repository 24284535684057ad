import Moderation.Document.Decoder
import Moderation.Proofs.Json.Reread

/-!
# What a decoder reads is legible

A value that was read from a document, be it of JSON or of YAML, can be written and read again with
as many levels.
-/

namespace Moderation

variable {value : Json} {levels : Nat}

namespace Yaml

theorem inRange_of_nearest? {negative : Bool} {digits : List Char} {exponent : Int} {x : Binary64}
    (h : nearest? negative digits exponent = some x) : x.InRange := by
  obtain ⟨n, -, hx⟩ := Option.bind_eq_some_iff.mp h
  dsimp only at hx
  split at hx
  · obtain rfl := Option.some.inj hx
    exact Binary64.inRange_zero negative
  split at hx
  · cases hx
  split at hx
  · exact Binary64.inRange_of_ofRatio? Nat.one_pos hx
  · exact Binary64.inRange_of_ofRatio? (tenTo_pos _) hx

theorem inRange_of_real? {text : String} {x : Binary64} (h : real? text = some x) :
    x.InRange := by
  obtain ⟨e, -, hx⟩ := Option.bind_eq_some_iff.mp h
  exact inRange_of_nearest? hx

/-- What is no number is read as a text. -/
theorem isLegible_real?_getD (text : String) (levels : Nat) :
    (((real? text).map fun x ↦ Json.number (.real x)).getD (.string text)).isLegible levels =
      true := by
  cases h : real? text with
  | none => rfl
  | some x => exact Json.isLegible_real (inRange_of_real? h) levels

theorem isLegible_of_value? {text : String} (h : value? text = some value) (levels : Nat) :
    value.isLegible levels = true := by
  have hreal := isLegible_real?_getD text levels
  unfold value? at h
  split at h
  · obtain rfl := Option.some.inj h
    rfl
  split at h
  · obtain rfl := Option.some.inj h
    rfl
  split at h
  · split at h
    · rename_i hfits
      obtain rfl := Option.some.inj h
      exact Json.isLegible_integer (Number.inRange_natCast hfits) levels
    split at h
    · cases h
    · obtain rfl := Option.some.inj h
      exact hreal
  split at h
  · split at h
    · rename_i hfits
      obtain rfl := Option.some.inj h
      exact Json.isLegible_integer (Number.inRange_neg_natCast hfits) levels
    split at h
    · cases h
    · obtain rfl := Option.some.inj h
      exact hreal
  split at h
  · obtain rfl := Option.some.inj h
    rfl
  split at h
  · obtain rfl := Option.some.inj h
    rfl
  · obtain rfl := Option.some.inj h
    exact hreal

theorem inRange_of_integer? {text : String} {n : Int} (h : integer? text = some n) :
    Number.InRange n := by
  unfold integer? at h
  split at h
  · split at h
    · rename_i hfits
      obtain rfl := Option.some.inj h
      exact Number.inRange_natCast hfits
    · cases h
  · split at h
    · rename_i hfits
      obtain rfl := Option.some.inj h
      exact Number.inRange_neg_natCast hfits
    · cases h
  · cases h

theorem isLegible_of_taggedValue? {tag text : String} (h : taggedValue? tag text = some value)
    (levels : Nat) : value.isLegible levels = true := by
  unfold taggedValue? at h
  split at h
  · split at h
    · obtain rfl := Option.some.inj h
      rfl
    · cases h
  split at h
  · obtain ⟨b, -, rfl⟩ := Option.map_eq_some_iff.mp h
    rfl
  split at h
  · obtain ⟨n, hn, rfl⟩ := Option.map_eq_some_iff.mp h
    exact Json.isLegible_integer (inRange_of_integer? hn) levels
  split at h
  · split at h
    · obtain rfl := Option.some.inj h
      rfl
    · obtain ⟨x, hx, rfl⟩ := Option.map_eq_some_iff.mp h
      exact Json.isLegible_real (inRange_of_real? hx) levels
  split at h
  · cases h
  · obtain rfl := Option.some.inj h
    rfl

end Yaml

namespace Decoder

/-- A tag decides on a scalar, and anything else is read without it. -/
theorem json_tagged {tag : String} {document : Document}
    (h : json levels (.tagged tag document) = .ok value) :
    (∃ text, Yaml.taggedValue? tag text = some value) ∨ json levels document = .ok value := by
  cases document with
  | plain text =>
    unfold json at h
    split at h
    · rename_i hvalue
      obtain rfl := Except.ok.inj h
      exact .inl ⟨text, hvalue⟩
    · cases h
  | text s =>
    cases s with
    | none =>
      unfold json at h
      split at h
      · cases h
      · exact .inr h
    | some text =>
      unfold json at h
      split at h
      · rename_i hvalue
        obtain rfl := Except.ok.inj h
        exact .inl ⟨text, hvalue⟩
      · cases h
  | null | bool | number | list | mapping | tagged | broken =>
    unfold json at h
    split at h
    · cases h
    · exact .inr h

mutual

/-- What is read with so many levels can be read again with as many. -/
theorem isLegible_of_json : ∀ (levels : Nat) (document : Document) {value : Json},
    json levels document = .ok value → value.isLegible levels = true
  | _, .null, _, h => by
    obtain rfl := Except.ok.inj h
    rfl
  | _, .bool b, _, h => by
    obtain rfl := Except.ok.inj h
    rfl
  | _, .number numeral, _, h => by
    unfold json at h
    split at h
    · rename_i hvalue
      obtain rfl := Except.ok.inj h
      exact Numeral.fits_of_value? hvalue
    · cases h
  | _, .text (some s), _, h => by
    obtain rfl := Except.ok.inj h
    rfl
  | _, .text none, _, h => by cases h
  | levels, .plain text, _, h => by
    unfold json at h
    split at h
    · rename_i hvalue
      obtain rfl := Except.ok.inj h
      exact Yaml.isLegible_of_value? hvalue levels
    · cases h
  | 0, .list items ending, _, h => by cases h
  | levels + 1, .list items ending, _, h => by
    simp only [json, bind, Except.bind] at h
    split at h
    · cases h
    rename_i values hvalues
    split at h
    · cases h
    obtain rfl := Except.ok.inj h
    exact Json.isLegible_array_iff.mpr ⟨levels, rfl, areLegible_of_jsonItems levels items hvalues⟩
  | 0, .mapping entries ending, _, h => by cases h
  | levels + 1, .mapping entries ending, _, h => by
    simp only [json, bind, Except.bind] at h
    split at h
    · cases h
    rename_i values hvalues
    split at h
    · cases h
    obtain rfl := Except.ok.inj h
    refine Json.isLegible_ofFields_iff.mpr ⟨levels, rfl, fun name value hget ↦ ?_⟩
    exact areLegible_of_jsonMembers levels entries hvalues _ (Fields.mem_of_getElem?_ofMembers hget)
  | levels, .tagged tag document, _, h => by
    rcases json_tagged h with ⟨text, hvalue⟩ | hdocument
    · exact Yaml.isLegible_of_taggedValue? hvalue levels
    · exact isLegible_of_json levels document hdocument
  | _, .broken, _, h => by cases h

theorem areLegible_of_jsonItems : ∀ (levels : Nat) (items : List Document) {values : List Json},
    jsonItems levels items = .ok values → ∀ value ∈ values, value.isLegible levels = true
  | levels, [], _, h => by
    obtain rfl := Except.ok.inj h
    nofun
  | levels, item :: rest, _, h => by
    simp only [jsonItems, bind, Except.bind] at h
    split at h
    · cases h
    rename_i value hvalue
    split at h
    · cases h
    rename_i values hvalues
    obtain rfl := Except.ok.inj h
    exact List.forall_mem_cons.mpr
      ⟨isLegible_of_json levels item hvalue, areLegible_of_jsonItems levels rest hvalues⟩

theorem areLegible_of_jsonMembers : ∀ (levels : Nat) (entries : List (Document × Document))
    {values : List (String × Json)},
    jsonMembers levels entries = .ok values →
      ∀ member ∈ values, member.2.isLegible levels = true
  | levels, [], _, h => by
    obtain rfl := Except.ok.inj h
    nofun
  | levels, (key, item) :: rest, _, h => by
    simp only [jsonMembers, bind, Except.bind] at h
    split at h
    · cases h
    split at h
    · cases h
    rename_i value hvalue
    split at h
    · cases h
    rename_i values hvalues
    obtain rfl := Except.ok.inj h
    exact List.forall_mem_cons.mpr
      ⟨isLegible_of_json levels item hvalue, areLegible_of_jsonMembers levels rest hvalues⟩

end

end Decoder

/-- What has come back comes back again. -/
theorem Json.isLegible_reread (h : value.isLegible levels = true) :
    value.reread.isLegible levels = true :=
  Decoder.isLegible_of_json levels value.toDocument (json_toDocument h)

end Moderation
