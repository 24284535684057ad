import Moderation.Proofs.Http.Request
import Moderation.Proofs.Text.Blank

/-!
# Moderators that come back

What the headers of a client tell the service about its moderator. Every name can be sent, and what
arrives of one is the name without the blanks around it. For a name of ASCII characters this does
arrive.
-/

namespace Moderation

namespace Http

/-- The control characters. -/
def IsControl (c : Char) : Prop := c.toNat < 0x20 ∨ 0x7f ≤ c.toNat ∧ c.toNat < 0xa0

instance (c : Char) : Decidable (IsControl c) := inferInstanceAs (Decidable (_ ∨ _))

/-- The only blank among the ASCII characters, control characters apart, is the space. -/
theorem isBlank_eq_false_iff {c : Char} (ascii : c.toNat < 0x80) (clean : ¬ IsControl c) :
    Text.isBlank c = false ↔ c ≠ ' ' := by
  have hspace : c = ' ' ↔ c.toNat = 0x20 := Char.toNat_inj.symm
  rw [IsControl] at clean
  rw [ne_eq, hspace, ← Bool.not_eq_true]
  simp only [Text.isBlank, Text.blankRanges, List.any_cons, List.any_nil, Bool.or_eq_true,
    Bool.and_eq_true, decide_eq_true_eq, Bool.false_eq_true, or_false]
  omega

theorem ascii_of_isDigit {c : Char} (h : Time.isDigit c = true) :
    c.toNat < 0x80 ∧ ¬ IsControl c := by
  have hrange : 0x30 ≤ c.toNat ∧ c.toNat ≤ 0x39 := by
    simpa [Time.isDigit, Char.le_def, UInt32.le_iff_toNat_le] using h
  rw [IsControl]
  omega

namespace Headers

variable {cs : List Char} {c : Char}

theorem encodeChars_ascii (ascii : ∀ c ∈ cs, c.toNat < 0x80) :
    Utf8.encodeChars cs = cs.map fun c ↦ UInt8.ofNat c.toNat := by
  induction cs with
  | nil => rfl
  | cons c rest ih =>
    obtain ⟨hc, hrest⟩ := List.forall_mem_cons.mp ascii
    obtain ⟨-, hone⟩ | ⟨hmore, -⟩ := Utf8.utf8EncodeChar_cases c
    · rw [Utf8.encodeChars, List.flatMap_cons, hone, ← Utf8.encodeChars, ih hrest]
      rfl
    · exact absurd hc (Nat.not_lt.mpr hmore)

/-- A text without control characters can be put into a header. -/
theorem isAllowed_encodeChars (clean : ∀ c ∈ cs, ¬ IsControl c) :
    (Utf8.encodeChars cs).all isAllowed = true := by
  rw [List.all_eq_true]
  intro b hb
  obtain ⟨c, hc, hb⟩ := List.mem_flatMap.mp hb
  rw [isAllowed_iff]
  obtain ⟨hascii, hone⟩ | ⟨-, hmore⟩ := Utf8.utf8EncodeChar_cases c
  · obtain rfl := List.mem_singleton.mp (hone ▸ hb)
    have hclean := clean c hc
    rw [IsControl] at hclean
    rw [Utf8.toNat_ofNat (by omega)]
    omega
  · have hleast := hmore b hb
    omega

theorem text?_encodeChars (ascii : ∀ c ∈ cs, c.toNat < 0x80) (clean : ∀ c ∈ cs, ¬ IsControl c) :
    text? (Utf8.encodeChars cs) = some cs := by
  have hbyte : ∀ c ∈ cs, (UInt8.ofNat c.toNat).toNat = c.toNat :=
    fun c hc ↦ Utf8.toNat_ofNat (Nat.lt_trans (ascii c hc) (by decide))
  have hvisible : (cs.map fun c ↦ UInt8.ofNat c.toNat).all isVisible = true := by
    rw [List.all_map, List.all_eq_true]
    intro c hc
    have hascii := ascii c hc
    have hclean := clean c hc
    rw [IsControl] at hclean
    rw [Function.comp_apply, isVisible_iff, hbyte c hc]
    omega
  rw [encodeChars_ascii ascii, text?, if_pos hvisible, List.map_map]
  refine congrArg some ((List.map_congr_left fun c hc ↦ ?_).trans (List.map_id' cs))
  change Char.ofNat (UInt8.ofNat c.toNat).toNat = c
  rw [hbyte c hc, Char.ofNat_toNat]

theorem text?_encodeChars_eq_none (hc : c ∈ cs) (beyond : 0x80 ≤ c.toNat) :
    text? (Utf8.encodeChars cs) = none := by
  obtain ⟨hascii, -⟩ | ⟨-, hmore⟩ := Utf8.utf8EncodeChar_cases c
  · exact absurd beyond (Nat.not_le.mpr hascii)
  obtain ⟨b, hb⟩ := List.exists_mem_of_ne_nil _ (String.utf8EncodeChar_ne_nil (c := c))
  have hmem : b ∈ Utf8.encodeChars cs := List.mem_flatMap.mpr ⟨c, hc, hb⟩
  have hleast : 0x80 ≤ b.toNat := hmore b hb
  refine if_neg fun hall ↦ ?_
  have hvisible := isVisible_iff.mp (List.all_eq_true.mp hall b hmem)
  omega

end Headers

/-- A name that shows something and has no control characters. -/
structure IsName (text : String) : Prop where
  shown : ∃ c ∈ text.toList, Text.isBlank c = false
  clean : ∀ c ∈ text.toList, ¬ IsControl c

/-- A text of ASCII characters. -/
def IsAscii (text : String) : Prop := ∀ c ∈ text.toList, c.toNat < 0x80

-- Both are decided from character to character of the text, not over all characters.
instance (text : String) : Decidable (IsName text) :=
  decidable_of_iff ((text.toList.any fun c ↦ !Text.isBlank c) = true ∧
      (text.toList.all fun c ↦ decide (¬ IsControl c)) = true)
    ⟨fun h ↦ ⟨by simpa using h.1, by simpa using h.2⟩,
      fun h ↦ ⟨by simpa using h.shown, by simpa using h.clean⟩⟩

instance (text : String) : Decidable (IsAscii text) :=
  decidable_of_iff ((text.toList.all fun c ↦ decide (c.toNat < 0x80)) = true)
    (by simp [IsAscii])

namespace IsName

variable {text : String}

theorem of_digits (digits : ∀ c ∈ text.toList, Time.isDigit c = true) (some : text.toList ≠ []) :
    IsName text := by
  obtain ⟨c, hc⟩ := List.exists_mem_of_ne_nil _ some
  exact ⟨⟨c, hc, Time.isBlank_of_isDigit (digits c hc)⟩,
    fun c hc ↦ (ascii_of_isDigit (digits c hc)).2⟩

/-- A name of ASCII characters is kept unless it begins or ends with a space. -/
theorem trim_eq_iff (h : IsName text) (ascii : IsAscii text) :
    String.ofList (Text.trim text.toList) = text ↔
      text.toList.head? ≠ some ' ' ∧ text.toList.getLast? ≠ some ' ' := by
  have hkept : String.ofList (Text.trim text.toList) = text ↔
      Text.trim text.toList = text.toList := by
    rw [← String.toList_inj, String.toList_ofList]
  have hblank : ∀ c ∈ text.toList, (Text.isBlank c = false ↔ c ≠ ' ') :=
    fun c hc ↦ isBlank_eq_false_iff (ascii c hc) (h.clean c hc)
  rw [hkept, Text.trim_eq_self_iff]
  apply and_congr
  · cases hhead : text.toList.head? with
    | none => simp
    | some c => simpa using hblank c (List.mem_of_head? hhead)
  · cases hlast : text.toList.getLast? with
    | none => simp
    | some c => simpa using hblank c (List.mem_of_getLast? hlast)

end IsName

namespace Identity

variable {headers : Headers} {name : String}

/-- The value of a header that was written as a text. -/
theorem value?_text {text : String} (h : headers.get? name = some (Utf8.encode text))
    (written : IsName text) (ascii : IsAscii text) :
    value? headers name = some (String.ofList (Text.trim text.toList)) := by
  have hsome : (Text.trim text.toList).isEmpty = false := by
    obtain ⟨c, hc, hvisible⟩ := written.shown
    rw [List.isEmpty_eq_false_iff, ne_eq, Text.trim_eq_nil_iff]
    intro hblank
    rw [hblank c hc] at hvisible
    cases hvisible
  rw [value?, h]
  simp only [Option.bind_eq_bind, Option.bind_some, Utf8.encode,
    Headers.text?_encodeChars ascii written.clean, hsome]
  rfl

theorem value?_of_not_isAscii {text : String} (h : headers.get? name = some (Utf8.encode text))
    (beyond : ¬ IsAscii text) : value? headers name = none := by
  obtain ⟨c, hc, hbeyond⟩ : ∃ c ∈ text.toList, 0x80 ≤ c.toNat := by simpa [IsAscii] using beyond
  rw [value?, h]
  simp only [Option.bind_eq_bind, Option.bind_some, Utf8.encode,
    Headers.text?_encodeChars_eq_none hc hbeyond]
  rfl

theorem idHeader_lower : Headers.asciiLower idHeader = idHeader := by decide +kernel

theorem get?_idHeader (user : User) :
    (Identity.headers user).get? idHeader = some (Utf8.encode (toString user.id)) :=
  Headers.get?_cons_self idHeader_lower _ _

theorem value?_idHeader (user : User) (more : Headers) :
    value? (Identity.headers user ++ more) idHeader = some (toString user.id) := by
  have hlist : (toString user.id).toList = Number.digitsOf user.id.value.toNat :=
    Unsigned.toList_toString _
  have hdigits : ∀ c ∈ (toString user.id).toList, Time.isDigit c = true := by
    rw [hlist]
    exact fun c hc ↦ isDigit_of_mem_digitsOf hc
  have hname : IsName (toString user.id) :=
    .of_digits hdigits (by rw [hlist]; exact digitsOf_ne_nil _)
  have hascii : IsAscii (toString user.id) := fun c hc ↦ (ascii_of_isDigit (hdigits c hc)).1
  have htrim : Text.trim (toString user.id).toList = (toString user.id).toList :=
    Text.trim_eq_self fun c hc ↦ Time.isBlank_of_isDigit (hdigits c hc)
  rw [value?_text (Headers.get?_append (get?_idHeader user) more) hname hascii, htrim,
    String.ofList_toList]

/-- The number of a moderator arrives, whatever the name does. -/
theorem moderator_headers (user : User) (more : Headers) :
    moderator (Identity.headers user ++ more) =
      match value? (Identity.headers user ++ more) usernameHeader with
      | some username => .ok ⟨user.id, username⟩
      | none => .error (.missing usernameHeader) := by
  rw [moderator, value?_idHeader]
  dsimp only
  have hread : Unsigned.read (toString user.id) = .ok user.id.value := Unsigned.read_toString _
  rw [hread]
  cases value? (Identity.headers user ++ more) usernameHeader <;> rfl

end Identity

/-- A moderator without the blanks around the name. -/
def trimmed (user : User) : User := ⟨user.id, String.ofList (Text.trim user.username.toList)⟩

namespace Client

variable {c : Client}

theorem actor_encode_of_isAscii (name : IsName c.actor.username)
    (ascii : IsAscii c.actor.username) (request : Moderation.Request) :
    (c.encode request).actor = .ok (trimmed c.actor) := by
  rw [Request.actor, encode]
  dsimp only
  rw [Identity.moderator_headers, Identity.value?_text
    (Headers.get?_append (Identity.get?_usernameHeader c.actor) _) name ascii]
  rfl

theorem actor_encode_of_not_isAscii (beyond : ¬ IsAscii c.actor.username)
    (request : Moderation.Request) :
    (c.encode request).actor = .error (.identity (.missing Identity.usernameHeader)) := by
  rw [Request.actor, encode]
  dsimp only
  rw [Identity.moderator_headers, Identity.value?_of_not_isAscii
    (Headers.get?_append (Identity.get?_usernameHeader c.actor) _) beyond]
  rfl

/-- Every name can be sent, and no moderator arrives with another id or with more changed in the name
than that the blanks around it are gone. One with a name of ASCII characters does arrive, as the same
one just if no space is at an end of the name. -/
theorem actor_of_encode (name : IsName c.actor.username) (request : Moderation.Request) :
    c.hasHeaders = true ∧
      (∀ actor, (c.encode request).actor = .ok actor → actor = trimmed c.actor) ∧
      (IsAscii c.actor.username → (c.encode request).actor = .ok (trimmed c.actor) ∧
        ((c.encode request).actor = .ok c.actor ↔
          c.actor.username.toList.head? ≠ some ' ' ∧
            c.actor.username.toList.getLast? ≠ some ' ')) := by
  refine ⟨Headers.isAllowed_encodeChars name.clean, fun actor hactor ↦ ?_, fun ascii ↦ ?_⟩
  · by_cases ascii : IsAscii c.actor.username
    · rw [actor_encode_of_isAscii name ascii request] at hactor
      exact (Except.ok.inj hactor).symm
    · rw [actor_encode_of_not_isAscii ascii request] at hactor
      cases hactor
  · have harrives := actor_encode_of_isAscii name ascii request
    refine ⟨harrives, ?_⟩
    rw [← name.trim_eq_iff ascii, harrives]
    constructor
    · exact fun h ↦ congrArg User.username (Except.ok.inj h)
    · exact fun h ↦ by rw [trimmed, h]

/-- A name with spaces, as it is sent and as it arrives. -/
theorem actor_of_encode_spaced :
    let c := create ⟨7, " mod a"⟩ "/"
    IsName c.actor.username ∧ IsAscii c.actor.username ∧ c.hasHeaders = true ∧
      (c.encode (.claim 10 false)).actor = .ok ⟨7, "mod a"⟩ := by
  intro c
  have hname : IsName c.actor.username := by decide +kernel
  have hascii : IsAscii c.actor.username := by decide +kernel
  have htrimmed : trimmed c.actor = ⟨7, "mod a"⟩ := by decide +kernel
  obtain ⟨hsent, -, harrives⟩ := actor_of_encode hname (.claim 10 false)
  rw [htrimmed] at harrives
  exact ⟨hname, hascii, hsent, (harrives hascii).1⟩

/-- Not every name arrives as it is: the spaces around one are lost. -/
theorem actor_of_encode_ne :
    let c := create ⟨7, " alice "⟩ "/"
    IsName c.actor.username ∧ c.hasHeaders = true ∧
      (c.encode (.claim 10 false)).actor = .ok ⟨7, "alice"⟩ ∧
      (c.encode (.claim 10 false)).actor ≠ .ok c.actor := by
  intro c
  have hname : IsName c.actor.username := by decide +kernel
  have hascii : IsAscii c.actor.username := by decide +kernel
  have htrimmed : trimmed c.actor = ⟨7, "alice"⟩ := by decide +kernel
  have harrives : (c.encode (.claim 10 false)).actor = .ok ⟨7, "alice"⟩ := by
    rw [actor_encode_of_isAscii hname hascii, htrimmed]
  refine ⟨hname, Headers.isAllowed_encodeChars hname.clean, harrives, ?_⟩
  rw [harrives]
  intro h
  have hsame : "alice" = c.actor.username := congrArg User.username (Except.ok.inj h)
  exact absurd hsame (by decide +kernel)

end Client

end Http

end Moderation
