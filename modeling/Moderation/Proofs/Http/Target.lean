import Moderation.Http.Address
import Moderation.Http.Target
import Moderation.Proofs.Text.Digits
import Moderation.Proofs.Text.Split
import Moderation.Proofs.Text.Utf8

/-!
# Targets that come back

An address of words is sent as a target from which the service gets the words back. A word is made
of letters, digits, hyphens and underscores; letters that are not of ASCII go as bytes with percent
signs.
-/

namespace Moderation.Http

variable {c : Char} {cs word : List Char}

/-- A letter or digit, a hyphen, an underscore, or any character that is not of ASCII. -/
def isWordChar (c : Char) : Bool := c.isAlphanum || c == '-' || c == '_' || 0x80 ≤ c.toNat

/-- A character that a word may be sent with. -/
def isSentChar (c : Char) : Bool := isWordChar c || c == '%'

/-- A text of some length that has only characters for words. -/
structure IsWord (cs : List Char) : Prop where
  nonempty : cs ≠ []
  chars : ∀ c ∈ cs, isWordChar c = true

instance : DecidablePred IsWord := fun cs ↦
  decidable_of_iff (cs ≠ [] ∧ cs.all isWordChar = true)
    ⟨fun h ↦ ⟨h.1, List.all_eq_true.mp h.2⟩, fun h ↦ ⟨h.nonempty, List.all_eq_true.mpr h.chars⟩⟩

theorem ne_of_isWordChar {d : Char} (h : isWordChar c = true) (hd : isWordChar d = false) :
    c ≠ d := by
  rintro rfl
  rw [h] at hd
  cases hd

theorem visible_of_isWordChar (h : isWordChar c = true) : 0x20 < c.toNat ∧ c.toNat ≠ 0x7f := by
  have hlow : ∀ n < 0x80, isWordChar (Char.ofNat n) = true → 0x20 < n ∧ n ≠ 0x7f := by decide
  by_cases hascii : c.toNat < 0x80
  · exact hlow c.toNat hascii (by rwa [Char.ofNat_toNat])
  · omega

namespace Address

theorem hexDigit_facts : ∀ n < 16, Text.hexValue? (hexDigit n) = some n ∧
    isWordChar (hexDigit n) = true := by decide

theorem isSent_percentEncodeByte (b : UInt8) : ∀ c ∈ percentEncodeByte b, isSentChar c = true := by
  have hb := b.toNat_lt
  have hhigh := (hexDigit_facts (b.toNat / 16) (by omega)).2
  have hlow := (hexDigit_facts (b.toNat % 16) (by omega)).2
  simp only [percentEncodeByte, List.forall_mem_cons, isSentChar, hhigh, hlow]
  exact ⟨by decide, rfl, rfl, nofun⟩

/-- What a character for words is sent as. -/
theorem isSent_encodeChar (reserved : Char → Bool) (h : isWordChar c = true) :
    ∀ d ∈ encodeChar reserved c, isSentChar d = true := by
  rw [encodeChar]
  split
  · rw [List.forall_mem_singleton, isSentChar, h, Bool.true_or]
  · intro d hd
    obtain ⟨b, -, hb⟩ := List.mem_flatMap.mp hd
    exact isSent_percentEncodeByte b d hb

/-- A segment is sent as it is written. -/
theorem isSent_encodeSegment (h : IsWord word) :
    ∀ c ∈ encodeSegment word, isSentChar c = true := by
  intro c hc
  obtain ⟨d, hd, hc⟩ := List.mem_flatMap.mp hc
  exact isSent_encodeChar _ (h.chars d hd) c hc

end Address

namespace Target

open Address

theorem percentDecode_percentEncodeByte (b : UInt8) (rest : List Char) :
    percentDecode (percentEncodeByte b ++ rest) = b :: percentDecode rest := by
  have hb := b.toNat_lt
  have hhigh := (hexDigit_facts (b.toNat / 16) (by omega)).1
  have hlow := (hexDigit_facts (b.toNat % 16) (by omega)).1
  have hvalue : b.toNat / 16 * 16 + b.toNat % 16 = b.toNat := by omega
  change percentDecode ('%' :: hexDigit (b.toNat / 16) :: hexDigit (b.toNat % 16) :: rest) = _
  rw [percentDecode, hhigh, hlow]
  dsimp only
  rw [hvalue, UInt8.ofNat_toNat]

/-- Escaped bytes come back. -/
theorem percentDecode_percentEncode (bytes : List UInt8) (rest : List Char) :
    percentDecode (bytes.flatMap percentEncodeByte ++ rest) = bytes ++ percentDecode rest := by
  induction bytes with
  | nil => rfl
  | cons b bytes ih =>
    rw [List.flatMap_cons, List.append_assoc, percentDecode_percentEncodeByte, ih, List.cons_append]

theorem percentDecode_cons (hc : c ≠ '%') (rest : List Char) :
    percentDecode (c :: rest) = String.utf8EncodeChar c ++ percentDecode rest := by
  rw [percentDecode.eq_2]
  exact fun _ _ _ heq ↦ absurd heq hc

theorem percentDecode_encodeChar (reserved : Char → Bool) (hc : c ≠ '%') (rest : List Char) :
    percentDecode (encodeChar reserved c ++ rest) =
      String.utf8EncodeChar c ++ percentDecode rest := by
  rw [encodeChar]
  split
  · exact percentDecode_cons hc rest
  · exact percentDecode_percentEncode _ rest

/-- A word comes back from its segment as the bytes of its characters. -/
theorem percentDecode_encodeSegment (h : ∀ c ∈ word, isWordChar c = true) :
    percentDecode (encodeSegment word) = Utf8.encodeChars word := by
  induction word with
  | nil => rfl
  | cons c word ih =>
    obtain ⟨hc, hword⟩ := List.forall_mem_cons.mp h
    have hpercent : c ≠ '%' := ne_of_isWordChar hc (by decide)
    rw [encodeSegment, List.flatMap_cons, percentDecode_encodeChar _ hpercent]
    exact congrArg (String.utf8EncodeChar c ++ ·) (ih hword)

/-- A value of a query that needs no percent signs. -/
theorem queryText_of_wordChars (h : ∀ c ∈ word, isWordChar c = true) :
    queryText word = String.ofList word := by
  have hplus : word.map (fun c ↦ if c = '+' then ' ' else c) = word.map id :=
    List.map_congr_left fun c hc ↦ if_neg (ne_of_isWordChar (h c hc) (by decide))
  have hbytes : ∀ cs : List Char, (∀ c ∈ cs, isWordChar c = true) →
      percentDecode cs = Utf8.encodeChars cs := by
    intro cs hcs
    induction cs with
    | nil => rfl
    | cons c cs ih =>
      obtain ⟨hc, hrest⟩ := List.forall_mem_cons.mp hcs
      rw [percentDecode_cons (ne_of_isWordChar hc (by decide)), ih hrest]
      rfl
  rw [queryText, hplus, List.map_id, hbytes word h, Utf8.decodeLossy_encodeChars]

theorem encodeSegment_ne_nil (h : IsWord word) : encodeSegment word ≠ [] := by
  intro hempty
  have hbytes := percentDecode_encodeSegment h.chars
  rw [hempty] at hbytes
  exact Utf8.encodeChars_ne_nil h.nonempty hbytes.symm

/-- A word comes back from its segment. -/
theorem segmentText?_encodeSegment (h : IsWord word) :
    segmentText? (encodeSegment word) = some (String.ofList word) := by
  rw [segmentText?, percentDecode_encodeSegment h.chars, Utf8.decode?_encodeChars]
  rfl

end Target

/-- Some words as a path. -/
def pathOfWords (words : List (List Char)) : List Char := words.flatMap ('/' :: ·)

/-- A path has only slashes beside the characters of its segments. -/
theorem not_mem_pathOfWords {p : Char → Bool} {words : List (List Char)}
    (h : ∀ word ∈ words, ∀ c ∈ word, p c = true) (hslash : c ≠ '/') (hc : p c = false) :
    c ∉ pathOfWords words := by
  intro hmem
  obtain ⟨word, hword, hmem⟩ := List.mem_flatMap.mp hmem
  rw [h word hword c ((List.mem_cons.mp hmem).resolve_left hslash)] at hc
  cases hc

/-- The path of some words as it is sent. -/
def sentPath (words : List (List Char)) : List Char :=
  pathOfWords (words.map Address.encodeSegment)

/-- The query of a value as it is sent. -/
def sentQuery (value : Option (List Char)) : List Char := value.elim [] ('?' :: ·)

namespace Address

variable {words : List (List Char)}

theorem dots?_of_isWord (h : IsWord word) : dots? word = none := by
  obtain ⟨c, rest, rfl⟩ := List.exists_cons_of_ne_nil h.nonempty
  have hc := h.chars c List.mem_cons_self
  have hdot : c ≠ '.' := ne_of_isWordChar hc (by decide)
  have hpercent : c ≠ '%' := ne_of_isWordChar hc (by decide)
  rw [dots?.eq_5] <;> intros <;> simp_all

/-- Words are no dots, so nothing of them is resolved. -/
theorem resolve_words (h : ∀ word ∈ words, IsWord word) (before : List (List Char)) :
    resolve before false words = before.reverse ++ words := by
  induction words generalizing before with
  | nil => simp [resolve]
  | cons word words ih =>
    obtain ⟨hword, hwords⟩ := List.forall_mem_cons.mp h
    rw [resolve, dots?_of_isWord hword]
    dsimp only
    rw [ih hwords]
    simp

/-- The segments of a path are the words that it was made of. -/
theorem segments_pathOfWords (h : ∀ word ∈ words, IsWord word) (hne : words ≠ []) :
    segments (pathOfWords words) = words := by
  have hslashes : (pathOfWords words).map (fun c ↦ if c = '\\' then '/' else c) =
      (pathOfWords words).map id :=
    List.map_congr_left fun c hc ↦ if_neg fun heq ↦
      not_mem_pathOfWords (fun word hword ↦ (h word hword).chars) (by decide) (by decide) (heq ▸ hc)
  have hapart : ∀ word ∈ words, '/' ∉ word := fun word hword hmem ↦
    absurd ((h word hword).chars '/' hmem) (by decide)
  obtain ⟨word, rest, rfl⟩ := List.exists_cons_of_ne_nil hne
  obtain ⟨hword, hrest⟩ := List.forall_mem_cons.mp hapart
  rw [segments, hslashes, List.map_id]
  exact Text.splitOn_parts hword hrest

theorem encodePath_pathOfWords (h : ∀ word ∈ words, IsWord word) (hne : words ≠ []) :
    encodePath (pathOfWords words) = sentPath words := by
  rw [encodePath, segments_pathOfWords h hne, resolve_words h, sentPath, pathOfWords,
    List.flatMap_map]
  rfl

/-- An address of words names the words, and a value in the query as it is given. -/
theorem target_pathOfWords (h : ∀ word ∈ words, IsWord word) (hne : words ≠ [])
    {value : Option (List Char)} (hvalue : ∀ v ∈ value, v ≠ []) :
    target (pathOfWords words) value.toList = sentPath words ++ sentQuery value := by
  have hchars : ∀ word ∈ words, ∀ c ∈ word, isWordChar c = true :=
    fun word hword ↦ (h word hword).chars
  have hvisible : ∀ c ∈ pathOfWords words, 0x20 < c.toNat := by
    intro c hc
    obtain ⟨word, hword, hc⟩ := List.mem_flatMap.mp hc
    rcases List.mem_cons.mp hc with rfl | hc
    · decide
    · exact (visible_of_isWordChar (hchars word hword c hc)).1
  have htrimmed : ∀ c ∈ pathOfWords words, isTrimmed c = false := fun c hc ↦
    decide_eq_false (Nat.not_le_of_lt (hvisible c hc))
  have hkept : (pathOfWords words).filter (!isIgnored ·) = pathOfWords words := by
    refine List.filter_eq_self.mpr fun c hc ↦ ?_
    have hignored : c ≠ '\t' ∧ c ≠ '\n' ∧ c ≠ '\r' := by
      refine ⟨?_, ?_, ?_⟩ <;> rintro rfl <;> exact absurd (hvisible _ hc) (by decide)
    simp [isIgnored, hignored]
  rw [target, Text.dropEnd_eq_self htrimmed, hkept,
    Text.cut_of_not_mem (not_mem_pathOfWords hchars (by decide) (by decide)),
    Text.cut_of_not_mem (not_mem_pathOfWords hchars (by decide) (by decide))]
  dsimp only [Option.map_none, Option.toList_none, List.nil_append]
  rw [encodePath_pathOfWords h hne]
  cases value with
  | none => rfl
  | some v =>
    have hv : v.isEmpty = false := by simpa using hvalue v rfl
    simp [sentQuery, hv]

end Address

namespace Target

variable {words : List (List Char)} {value : Option (List Char)}

/-- The service gets the words of a path that was sent, and the value of the query. -/
theorem ofChars_sent (h : ∀ word ∈ words, IsWord word) (hne : words ≠ [])
    (hquery : ∀ c ∈ value.getD [], c ≠ ':' ∧ c ≠ '#') :
    ofChars (sentPath words ++ sentQuery value) =
      ⟨words.map Address.encodeSegment, value.getD []⟩ := by
  have hchars : ∀ segment ∈ words.map Address.encodeSegment,
      ∀ c ∈ segment, isSentChar c = true :=
    List.forall_mem_map.mpr fun word hword ↦ Address.isSent_encodeSegment (h word hword)
  have hwhole : ∀ c, c = ':' ∨ c = '#' → c ∉ sentPath words ++ sentQuery value := by
    intro c hc hmem
    rcases List.mem_append.mp hmem with hpath | hvalue
    · rcases hc with rfl | rfl <;>
        exact not_mem_pathOfWords hchars (by decide) (by decide) hpath
    · cases value with
      | none => cases hvalue
      | some v =>
        rcases List.mem_cons.mp hvalue with rfl | hv
        · exact absurd hc (by decide)
        · exact hc.elim (hquery c hv).1 (hquery c hv).2
  have hhost : withoutHost (sentPath words ++ sentQuery value) =
      sentPath words ++ sentQuery value := by
    rw [withoutHost, Text.cut_of_not_mem (hwhole ':' (.inl rfl))]
  have hpath : Text.cut '?' (sentPath words ++ sentQuery value) = (sentPath words, value) := by
    have hmark : '?' ∉ sentPath words := not_mem_pathOfWords hchars (by decide) (by decide)
    cases value with
    | none => exact (congrArg (Text.cut '?') (List.append_nil _)).trans (Text.cut_of_not_mem hmark)
    | some v => exact Text.cut_append hmark v
  have hapart : ∀ segment ∈ words.map Address.encodeSegment, '/' ∉ segment :=
    fun segment hsegment hmem ↦ absurd (hchars segment hsegment '/' hmem) (by decide)
  obtain ⟨word, rest, rfl⟩ := List.exists_cons_of_ne_nil hne
  obtain ⟨hword, hrest⟩ := List.forall_mem_cons.mp hapart
  rw [ofChars, hhost, Text.cut_of_not_mem (hwhole '#' (.inr rfl)), hpath]
  exact congrArg (Target.mk · _) (Text.splitOn_parts hword hrest)

end Target

end Moderation.Http
