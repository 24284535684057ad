import Mathlib.Tactic.Common
import Moderation.Text.Utf8

/-!
# Texts as bytes

A text comes back from its bytes. A reader needs no more of a character than its own bytes, so
whatever follows the text is read for itself.
-/

namespace Moderation.Utf8

section

variable {n value missing : Nat} {low high : UInt8}

theorem toNat_ofNat (h : n < 256) : (UInt8.ofNat n).toNat = n := UInt8.toNat_ofNat_of_lt' h

/-- A byte that opens a character waits for the rest of it. -/
theorem decodeFrom_opens {state : Partial} (opens : lead (UInt8.ofNat n) = .opens state)
    (rest : List UInt8) :
    decodeFrom none (UInt8.ofNat n :: rest) = decodeFrom (some state) rest := by
  rw [decodeFrom, opens]

/-- A byte in the middle of a character. -/
theorem decodeFrom_more (least : low.toNat ≤ n) (most : n ≤ high.toNat) (rest : List UInt8) :
    decodeFrom (some ⟨value, missing + 1, low, high⟩) (UInt8.ofNat n :: rest) =
      decodeFrom (some ⟨value * 64 + (n - 0x80), missing, 0x80, 0xbf⟩) rest := by
  have hn := toNat_ofNat (Nat.lt_of_le_of_lt most high.toNat_lt)
  have hrange : low ≤ UInt8.ofNat n ∧ UInt8.ofNat n ≤ high := by
    simpa only [UInt8.le_iff_toNat_le, hn] using ⟨least, most⟩
  simp only [decodeFrom, if_pos hrange, Partial.push, hn]

/-- The last byte of a character. -/
theorem decodeFrom_last (least : low.toNat ≤ n) (most : n ≤ high.toNat) (rest : List UInt8) :
    decodeFrom (some ⟨value, 0, low, high⟩) (UInt8.ofNat n :: rest) =
      some (Char.ofNat (value * 64 + (n - 0x80))) :: decodeFrom none rest := by
  have hn := toNat_ofNat (Nat.lt_of_le_of_lt most high.toNat_lt)
  have hrange : low ≤ UInt8.ofNat n ∧ UInt8.ofNat n ≤ high := by
    simpa only [UInt8.le_iff_toNat_le, hn] using ⟨least, most⟩
  simp only [decodeFrom, if_pos hrange, Partial.push, hn]

end

section

variable {v : Nat}

theorem decodeFrom_one (h : v ≤ 0x7f) (rest : List UInt8) :
    decodeFrom none (UInt8.ofNat v :: rest) = some (Char.ofNat v) :: decodeFrom none rest := by
  have hv : (UInt8.ofNat v).toNat = v := toNat_ofNat (by omega)
  rw [decodeFrom, lead, hv, if_pos (by omega)]

theorem decodeFrom_two (least : 0x7f < v) (most : v ≤ 0x7ff) (rest : List UInt8) :
    decodeFrom none (UInt8.ofNat (v / 64 % 32 + 192) :: UInt8.ofNat (v % 64 + 128) :: rest) =
      some (Char.ofNat v) :: decodeFrom none rest := by
  have hfirst : lead (UInt8.ofNat (v / 64 % 32 + 192)) =
      .opens ⟨v / 64 % 32 + 192 - 0xc0, 0, 0x80, 0xbf⟩ := by
    have hn : (UInt8.ofNat (v / 64 % 32 + 192)).toNat = v / 64 % 32 + 192 :=
      toNat_ofNat (by omega)
    rw [lead, hn, if_neg (by omega), if_neg (by omega), if_pos (by omega)]
  have hvalue : (v / 64 % 32 + 192 - 0xc0) * 64 + (v % 64 + 128 - 0x80) = v := by omega
  rw [decodeFrom_opens hfirst, decodeFrom_last, hvalue]
  · exact Nat.le_add_left _ _
  · change v % 64 + 128 ≤ 191
    omega

/-- The first of three bytes says where the second lies: a shorter form and the surrogates are left
out. -/
theorem lead_three (least : 0x7ff < v) (most : v ≤ 0xffff)
    (valid : v < 0xd800 ∨ 0xdfff < v) :
    ∃ low high : UInt8, lead (UInt8.ofNat (v / 4096 % 16 + 224)) =
        .opens ⟨v / 4096 % 16 + 224 - 0xe0, 1, low, high⟩ ∧
      low.toNat ≤ v / 64 % 64 + 128 ∧ v / 64 % 64 + 128 ≤ high.toNat := by
  have hn : (UInt8.ofNat (v / 4096 % 16 + 224)).toNat = v / 4096 % 16 + 224 :=
    toNat_ofNat (by omega)
  rw [lead, hn, if_neg (by omega), if_neg (by omega), if_neg (by omega)]
  by_cases hfirst : v / 4096 % 16 + 224 = 0xe0
  · refine ⟨0xa0, 0xbf, by rw [if_pos hfirst, hfirst], ?_, ?_⟩
    · change 160 ≤ v / 64 % 64 + 128
      omega
    · change v / 64 % 64 + 128 ≤ 191
      omega
  by_cases hsurrogate : v / 4096 % 16 + 224 = 0xed
  · refine ⟨0x80, 0x9f, by rw [if_neg hfirst, if_pos hsurrogate, hsurrogate], ?_, ?_⟩
    · exact Nat.le_add_left _ _
    · change v / 64 % 64 + 128 ≤ 159
      omega
  · refine ⟨0x80, 0xbf, by rw [if_neg hfirst, if_neg hsurrogate, if_pos (by omega)], ?_, ?_⟩
    · exact Nat.le_add_left _ _
    · change v / 64 % 64 + 128 ≤ 191
      omega

/-- Three bytes make a character, which is no surrogate. -/
theorem decodeFrom_three (least : 0x7ff < v) (most : v ≤ 0xffff)
    (valid : v < 0xd800 ∨ 0xdfff < v) (rest : List UInt8) :
    decodeFrom none (UInt8.ofNat (v / 4096 % 16 + 224) :: UInt8.ofNat (v / 64 % 64 + 128) ::
        UInt8.ofNat (v % 64 + 128) :: rest) =
      some (Char.ofNat v) :: decodeFrom none rest := by
  obtain ⟨low, high, hfirst, hlow, hhigh⟩ := lead_three least most valid
  have hvalue : ((v / 4096 % 16 + 224 - 0xe0) * 64 + (v / 64 % 64 + 128 - 0x80)) * 64 +
      (v % 64 + 128 - 0x80) = v := by
    omega
  rw [decodeFrom_opens hfirst, decodeFrom_more hlow hhigh, decodeFrom_last, hvalue]
  · exact Nat.le_add_left _ _
  · change v % 64 + 128 ≤ 191
    omega

/-- The first of four bytes says where the second lies: a shorter form and what is above the last
code point are left out. -/
theorem lead_four (least : 0xffff < v) (most : v < 0x110000) :
    ∃ low high : UInt8, lead (UInt8.ofNat (v / 262144 % 8 + 240)) =
        .opens ⟨v / 262144 % 8 + 240 - 0xf0, 2, low, high⟩ ∧
      low.toNat ≤ v / 4096 % 64 + 128 ∧ v / 4096 % 64 + 128 ≤ high.toNat := by
  have hn : (UInt8.ofNat (v / 262144 % 8 + 240)).toNat = v / 262144 % 8 + 240 :=
    toNat_ofNat (by omega)
  rw [lead, hn, if_neg (by omega), if_neg (by omega), if_neg (by omega), if_neg (by omega),
    if_neg (by omega), if_neg (by omega)]
  by_cases hfirst : v / 262144 % 8 + 240 = 0xf0
  · refine ⟨0x90, 0xbf, by rw [if_pos hfirst, hfirst], ?_, ?_⟩
    · change 144 ≤ v / 4096 % 64 + 128
      omega
    · change v / 4096 % 64 + 128 ≤ 191
      omega
  by_cases hlast : v / 262144 % 8 + 240 < 0xf4
  · refine ⟨0x80, 0xbf, by rw [if_neg hfirst, if_pos hlast], ?_, ?_⟩
    · exact Nat.le_add_left _ _
    · change v / 4096 % 64 + 128 ≤ 191
      omega
  · have heq : v / 262144 % 8 + 240 = 0xf4 := by omega
    refine ⟨0x80, 0x8f, by rw [if_neg hfirst, if_neg hlast, if_pos heq, heq], ?_, ?_⟩
    · exact Nat.le_add_left _ _
    · change v / 4096 % 64 + 128 ≤ 143
      omega

theorem decodeFrom_four (least : 0xffff < v) (most : v < 0x110000) (rest : List UInt8) :
    decodeFrom none (UInt8.ofNat (v / 262144 % 8 + 240) :: UInt8.ofNat (v / 4096 % 64 + 128) ::
        UInt8.ofNat (v / 64 % 64 + 128) :: UInt8.ofNat (v % 64 + 128) :: rest) =
      some (Char.ofNat v) :: decodeFrom none rest := by
  obtain ⟨low, high, hfirst, hlow, hhigh⟩ := lead_four least most
  have hvalue : (((v / 262144 % 8 + 240 - 0xf0) * 64 + (v / 4096 % 64 + 128 - 0x80)) * 64 +
      (v / 64 % 64 + 128 - 0x80)) * 64 + (v % 64 + 128 - 0x80) = v := by
    omega
  rw [decodeFrom_opens hfirst, decodeFrom_more hlow hhigh, decodeFrom_more,
    decodeFrom_last, hvalue]
  · exact Nat.le_add_left _ _
  · change v % 64 + 128 ≤ 191
    omega
  · exact Nat.le_add_left _ _
  · change v / 64 % 64 + 128 ≤ 191
    omega

end

/-- A character is read from its bytes, whatever follows them. -/
theorem decodeFrom_utf8EncodeChar (c : Char) (rest : List UInt8) :
    decodeFrom none (String.utf8EncodeChar c ++ rest) = some c :: decodeFrom none rest := by
  have hvalid : c.val.toNat < 0xd800 ∨ 0xdfff < c.val.toNat ∧ c.val.toNat < 0x110000 := c.valid
  have hchar : Char.ofNat c.val.toNat = c := Char.ofNat_toNat c
  rw [String.utf8EncodeChar]
  generalize c.val.toNat = v at hvalid hchar
  subst hchar
  split
  · rename_i hone
    exact decodeFrom_one hone rest
  split
  · rename_i hone htwo
    exact decodeFrom_two (by omega) htwo rest
  split
  · rename_i hone htwo hthree
    exact decodeFrom_three (by omega) hthree (by omega) rest
  · rename_i hone htwo hthree
    exact decodeFrom_four (by omega) (by omega) rest

/-- A character has one byte, which is its code, or only bytes that no such character has. -/
theorem utf8EncodeChar_cases (c : Char) :
    c.toNat < 0x80 ∧ String.utf8EncodeChar c = [UInt8.ofNat c.toNat] ∨
      0x80 ≤ c.toNat ∧ ∀ b ∈ String.utf8EncodeChar c, 0x80 ≤ b.toNat := by
  have hvalid : c.val.toNat < 0xd800 ∨ 0xdfff < c.val.toNat ∧ c.val.toNat < 0x110000 := c.valid
  have hbyte : ∀ n, 0x80 ≤ n → n < 0x100 → 0x80 ≤ (UInt8.ofNat n).toNat := fun n least most ↦ by
    rw [toNat_ofNat most]
    exact least
  change c.val.toNat < 0x80 ∧ _ = [UInt8.ofNat c.val.toNat] ∨ 0x80 ≤ c.val.toNat ∧ _
  rw [String.utf8EncodeChar]
  generalize c.val.toNat = v at hvalid
  split
  · rename_i hone
    exact .inl ⟨by omega, rfl⟩
  refine .inr ⟨by omega, ?_⟩
  split
  · simp only [List.forall_mem_cons]
    exact ⟨hbyte _ (by omega) (by omega), hbyte _ (by omega) (by omega), nofun⟩
  split
  · simp only [List.forall_mem_cons]
    exact ⟨hbyte _ (by omega) (by omega), hbyte _ (by omega) (by omega),
      hbyte _ (by omega) (by omega), nofun⟩
  · simp only [List.forall_mem_cons]
    exact ⟨hbyte _ (by omega) (by omega), hbyte _ (by omega) (by omega),
      hbyte _ (by omega) (by omega), hbyte _ (by omega) (by omega), nofun⟩

theorem encodeChars_append (cs ds : List Char) :
    encodeChars (cs ++ ds) = encodeChars cs ++ encodeChars ds :=
  List.flatMap_append

/-- Encoded characters are decoded one by one, with the rest left over. -/
theorem decodeFrom_encodeChars (cs : List Char) (rest : List UInt8) :
    decodeFrom none (encodeChars cs ++ rest) = cs.map some ++ decodeFrom none rest := by
  induction cs with
  | nil => rfl
  | cons c cs ih =>
    rw [encodeChars, List.flatMap_cons, List.append_assoc, decodeFrom_utf8EncodeChar]
    exact congrArg (some c :: ·) ih

theorem decodeFrom_encode (cs : List Char) : decodeFrom none (encodeChars cs) = cs.map some := by
  have h := decodeFrom_encodeChars cs []
  rw [List.append_nil] at h
  rw [h, decodeFrom, List.append_nil]

theorem decodeLossy_encodeChars (cs : List Char) : decodeLossy (encodeChars cs) = cs := by
  rw [decodeLossy, decodeFrom_encode, List.map_map]
  exact List.map_id cs

theorem encodeChars_ne_nil {cs : List Char} (h : cs ≠ []) : encodeChars cs ≠ [] := by
  intro hempty
  rw [← decodeLossy_encodeChars cs, hempty] at h
  exact h rfl

/-- So they decode as a whole. -/
theorem decode?_encodeChars (cs : List Char) : decode? (encodeChars cs) = some cs := by
  rw [decode?, decodeFrom_encode]
  induction cs with
  | nil => rfl
  | cons c cs ih =>
    rw [List.map_cons, List.mapM_cons, ih]
    rfl

theorem decodeSound_encodeChars (cs : List Char) : decodeSound (encodeChars cs) = cs := by
  rw [decodeSound, decodeFrom_encode]
  induction cs with
  | nil => rfl
  | cons c cs ih => exact congrArg (c :: ·) ih

end Moderation.Utf8
