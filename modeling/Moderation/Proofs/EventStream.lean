import Moderation.EventStream
import Moderation.Proofs.Json.Visible
import Moderation.Proofs.Text.Split
import Moderation.Proofs.Text.Utf8
import Moderation.Proofs.Wire.Event

/-!
# Events through a stream

What a stream sends comes back from its bytes, however they are cut. A frame that is complete stays
complete with the bytes that follow it, so a reader that is fed piece by piece sees the frames of
all the bytes together. A frame of which every line has some text is not complete before its end,
and its lines come back as they were written.
-/

namespace Moderation.EventStream

variable {bytes frame rest line : List UInt8}

theorem splitFrame?_cons {b : UInt8} (hbreak : ∀ rest, b = 10 → bytes = 10 :: rest → False)
    (hreturn : ∀ rest, b = 13 → bytes = 10 :: 13 :: 10 :: rest → False) :
    splitFrame? (b :: bytes) = (splitFrame? bytes).map fun (frame, left) ↦ (b :: frame, left) := by
  rw [splitFrame?.eq_4]
  · exact hbreak
  · exact hreturn

/-- A frame stays complete with the bytes that follow it. -/
theorem splitFrame?_append (h : splitFrame? bytes = some (frame, rest)) (more : List UInt8) :
    splitFrame? (bytes ++ more) = some (frame, rest ++ more) := by
  fun_induction splitFrame? bytes generalizing frame with
  | case1 => cases h
  | case2 => cases h; rfl
  | case3 => cases h; rfl
  | case4 b tail hbreak hreturn ih =>
    obtain ⟨⟨frame', left⟩, hsplit, heq⟩ := Option.map_eq_some_iff.1 h
    cases heq
    rw [List.cons_append, splitFrame?_cons, ih hsplit]
    · rfl
    -- The end of a frame cannot lie across the cut, since there is one after it already.
    · rintro rest' hb htail
      obtain _ | ⟨c, tail⟩ := tail
      · cases hsplit
      · obtain ⟨rfl, -⟩ := List.cons.inj htail
        exact hbreak tail hb rfl
    · rintro rest' hb htail
      obtain _ | ⟨c, _ | ⟨d, _ | ⟨e, tail⟩⟩⟩ := tail
      · cases hsplit
      · obtain ⟨rfl, -⟩ := List.cons.inj htail
        cases hsplit
      · simp only [List.cons_append, List.cons.injEq] at htail
        obtain ⟨rfl, rfl, -⟩ := htail
        cases hsplit
      · simp only [List.cons_append, List.cons.injEq] at htail
        obtain ⟨rfl, rfl, rfl, -⟩ := htail
        exact hreturn tail hb rfl

theorem splitFrames_of_some (h : splitFrame? bytes = some (frame, rest)) :
    splitFrames bytes = (frame :: (splitFrames rest).1, (splitFrames rest).2) := by
  rw [splitFrames]
  split
  · rename_i hsplit
    rw [h] at hsplit
    cases hsplit
    rfl
  · rename_i hsplit
    rw [h] at hsplit
    cases hsplit

theorem splitFrames_of_none (h : splitFrame? bytes = none) : splitFrames bytes = ([], bytes) := by
  rw [splitFrames]
  split
  · rename_i hsplit
    rw [h] at hsplit
    cases hsplit
  · rfl

/-- No frame is complete in the bytes that are left. -/
theorem splitFrame?_left (bytes : List UInt8) : splitFrame? (splitFrames bytes).2 = none := by
  fun_induction splitFrames bytes with
  | case1 bytes frame rest hsplit frames left hrest ih =>
    rwa [hrest] at ih
  | case2 bytes hsplit => exact hsplit

/-- The frames of more bytes are those from before and those that the bytes complete. -/
theorem splitFrames_append (bytes more : List UInt8) :
    splitFrames (bytes ++ more) =
      ((splitFrames bytes).1 ++ (splitFrames ((splitFrames bytes).2 ++ more)).1,
        (splitFrames ((splitFrames bytes).2 ++ more)).2) := by
  fun_induction splitFrames bytes with
  | case1 bytes frame rest hsplit frames left hrest ih =>
    rw [hrest] at ih
    rw [splitFrames_of_some (splitFrame?_append hsplit more), ih]
    rfl
  | case2 bytes hsplit => rfl

namespace Decoder

/-- A reader that waits for the end of a frame finds, piece by piece, the frames of all the bytes
together. -/
theorem pushAll_eq (decoder : Decoder) (h : splitFrame? decoder.buffer = none)
    (chunks : List (List UInt8)) :
    decoder.pushAll chunks =
      ((splitFrames (decoder.buffer ++ chunks.flatten)).1.filterMap
          fun frame ↦ frameOf? (Utf8.decodeLossy frame),
        ⟨(splitFrames (decoder.buffer ++ chunks.flatten)).2⟩) := by
  induction chunks generalizing decoder with
  | nil => rw [List.flatten_nil, List.append_nil, splitFrames_of_none h]; rfl
  | cons chunk chunks ih =>
    rw [List.flatten_cons, ← List.append_assoc, splitFrames_append, List.filterMap_append]
    have hpush := ih (decoder.push chunk).2 (splitFrame?_left _)
    rw [pushAll]
    simp only [hpush]
    rfl

end Decoder

/-- No line ends within a text. -/
def IsOneLine (cs : List Char) : Prop := ∀ c ∈ cs, c ≠ '\n' ∧ c ≠ '\r'

/-- No line ends within some bytes. -/
def IsUnbroken (bytes : List UInt8) : Prop := ∀ b ∈ bytes, b ≠ 10 ∧ b ≠ 13

theorem IsOneLine.isUnbroken {cs : List Char} (h : IsOneLine cs) :
    IsUnbroken (Utf8.encodeChars cs) := by
  intro b hb
  obtain ⟨c, hc, hb⟩ := List.mem_flatMap.mp hb
  have hchar : ∀ d : Char, d.toNat = b.toNat → c.toNat = b.toNat → c = d := fun d hd hc ↦
    Char.toNat_inj.mp (hc.trans hd.symm)
  obtain ⟨hone, hbytes⟩ | ⟨-, hbytes⟩ := Utf8.utf8EncodeChar_cases c
  · rw [hbytes, List.mem_singleton] at hb
    have hcode : c.toNat = b.toNat := by rw [hb, Utf8.toNat_ofNat (by omega)]
    constructor <;> rintro rfl
    · exact (h c hc).1 (hchar '\n' rfl hcode)
    · exact (h c hc).2 (hchar '\r' rfl hcode)
  · have hleast := hbytes b hb
    constructor <;> rintro rfl <;> exact absurd hleast (by decide)

theorem splitFrame?_unbroken (h : IsUnbroken line) (bytes : List UInt8) :
    splitFrame? (line ++ bytes) =
      (splitFrame? bytes).map fun (frame, left) ↦ (line ++ frame, left) := by
  induction line with
  | nil =>
    rw [List.nil_append]
    cases splitFrame? bytes <;> rfl
  | cons b line ih =>
    obtain ⟨hb, hline⟩ := List.forall_mem_cons.mp h
    rw [List.cons_append, splitFrame?_cons (fun _ heq ↦ absurd heq hb.1)
      (fun _ heq ↦ absurd heq hb.2), ih hline, Option.map_map]
    rfl

/-- The lines of a frame are not complete before the empty line. -/
theorem splitFrame?_lines {lines : List (List UInt8)} (hne : lines ≠ [])
    (unbroken : ∀ line ∈ lines, line ≠ [] ∧ IsUnbroken line) (rest : List UInt8) :
    splitFrame? (lines.flatMap (· ++ [10]) ++ 10 :: rest) =
      some (List.intercalate [10] lines, rest) := by
  induction lines with
  | nil => exact absurd rfl hne
  | cons line lines ih =>
    obtain ⟨⟨-, hline⟩, hlines⟩ := List.forall_mem_cons.mp unbroken
    rw [List.flatMap_cons, List.append_assoc, List.append_assoc, splitFrame?_unbroken hline]
    cases lines with
    | nil => simp [splitFrame?]
    | cons next lines =>
      obtain ⟨⟨hnext, hunbroken⟩, -⟩ := List.forall_mem_cons.mp hlines
      have hsplit := ih nofun hlines
      rw [List.singleton_append, splitFrame?_cons, hsplit]
      · simp [List.intercalate_cons_cons]
      · rintro rest' - heq
        obtain _ | ⟨b, next⟩ := next
        · exact hnext rfl
        · rw [List.flatMap_cons] at heq
          exact (hunbroken b List.mem_cons_self).1 (List.cons.inj heq).1
      · exact fun _ heq ↦ absurd heq (by decide)

/-- Some lines and the empty line after them. -/
def framed (lines : List (List Char)) : List Char := lines.flatMap (· ++ ['\n']) ++ ['\n']

theorem encodeChars_lines (lines : List (List Char)) :
    Utf8.encodeChars (lines.flatMap (· ++ ['\n'])) =
      (lines.map Utf8.encodeChars).flatMap (· ++ [10]) := by
  rw [Utf8.encodeChars, List.flatMap_assoc, List.flatMap_map]
  exact List.flatMap_congr fun line _ ↦ Utf8.encodeChars_append line ['\n']

theorem encodeChars_intercalate (lines : List (List Char)) :
    Utf8.encodeChars (List.intercalate ['\n'] lines) =
      List.intercalate [10] (lines.map Utf8.encodeChars) := by
  induction lines with
  | nil => rfl
  | cons line lines ih =>
    cases lines with
    | nil => simp
    | cons next lines =>
      rw [List.map_cons, List.map_cons, List.intercalate_cons_cons, List.intercalate_cons_cons,
        Utf8.encodeChars_append, Utf8.encodeChars_append, ih]
      rfl

theorem dropReturns_of_isOneLine {cs : List Char} (h : IsOneLine cs) : dropReturns cs = cs :=
  Text.dropEnd_eq_self fun c hc ↦ by simpa using (h c hc).2

/-- What is read of a frame of some lines. -/
def heard (lines : List (List Char)) : Option Frame := (lines.foldl Draft.add default).frame?

theorem frameOf?_intercalate {lines : List (List Char)} (hne : lines ≠ [])
    (oneLine : ∀ line ∈ lines, IsOneLine line) :
    frameOf? (List.intercalate ['\n'] lines) = heard lines := by
  have hsplit : Text.splitOn '\n' (List.intercalate ['\n'] lines) = lines :=
    Text.splitOn_intercalate hne fun line hline hmem ↦ (oneLine line hline _ hmem).1 rfl
  have hdrop : lines.map dropReturns = lines.map id :=
    List.map_congr_left fun line hline ↦ dropReturns_of_isOneLine (oneLine line hline)
  rw [frameOf?, hsplit, hdrop, List.map_id, heard]

/-- A frame of some lines ends with them, and its lines are heard as they were written. -/
theorem splitFrame?_framed {lines : List (List Char)} (hne : lines ≠ [])
    (oneLine : ∀ line ∈ lines, line ≠ [] ∧ IsOneLine line) (rest : List UInt8) :
    ∃ frame, splitFrame? (Utf8.encodeChars (framed lines) ++ rest) = some (frame, rest) ∧
      frameOf? (Utf8.decodeLossy frame) = heard lines := by
  have hunbroken : ∀ line ∈ lines.map Utf8.encodeChars, line ≠ [] ∧ IsUnbroken line := by
    intro line hline
    obtain ⟨cs, hcs, rfl⟩ := List.mem_map.mp hline
    obtain ⟨hnil, hone⟩ := oneLine cs hcs
    exact ⟨Utf8.encodeChars_ne_nil hnil, hone.isUnbroken⟩
  refine ⟨Utf8.encodeChars (List.intercalate ['\n'] lines), ?_, ?_⟩
  · rw [framed, Utf8.encodeChars_append, encodeChars_lines, List.append_assoc,
      encodeChars_intercalate]
    exact splitFrame?_lines (mt List.map_eq_nil_iff.mp hne) hunbroken rest
  · rw [Utf8.decodeLossy_encodeChars]
    exact frameOf?_intercalate hne fun line hline ↦ (oneLine line hline).2

/-! ## What is heard -/

/-- The line of a field. -/
def fieldLine (name value : List Char) : List Char := name ++ ':' :: ' ' :: value

theorem add_fieldLine (draft : Draft) {name : List Char} (hne : name ≠ []) (h : ':' ∉ name)
    (value : List Char) :
    draft.add (fieldLine name value) =
      if name = "event".toList then { draft with event := some value }
      else if name = "data".toList then { draft with data := draft.data ++ [value] }
      else draft := by
  have hsays : ((fieldLine name value).isEmpty || (fieldLine name value).head? == some ':') =
      false := by
    cases name with
    | nil => exact absurd rfl hne
    | cons c name =>
      have hc : c ≠ ':' := fun heq ↦ h (List.mem_cons.mpr (.inl heq.symm))
      simp [fieldLine, hc]
  have hfield : field (fieldLine name value) = (name, value) := by
    rw [field, fieldLine, Text.cut_append h]
    rfl
  rw [Draft.add, hsays, hfield]
  rfl

theorem heard_frame (event data : List Char) :
    heard [fieldLine "event".toList event, fieldLine "data".toList data] =
      some ⟨String.ofList event, String.ofList data⟩ := by
  rw [heard, List.foldl_cons, List.foldl_cons, List.foldl_nil,
    add_fieldLine _ (by decide) (by decide), if_pos rfl, add_fieldLine _ (by decide) (by decide),
    if_neg (by decide), if_pos rfl]
  change some (Frame.mk _ (String.ofList (List.intercalate ['\n'] [data]))) = _
  rw [List.intercalate_singleton]
  rfl

theorem heard_comment (text : List Char) : heard [':' :: text] = none := rfl

/-- What is sent through a stream: something from the mailbox, or a comment that keeps the stream
alive. -/
inductive Part where
  | delivery (found : Mailbox.Delivery Event)
  | comment (line : String)

namespace Part

def text : Part → String
  | .delivery found => deliveryText found
  | .comment line => ":" ++ line ++ "\n\n"

/-- The event that a part stands for. What was lost stands for a reload. -/
def event? : Part → Option Event
  | .delivery (.message event) => some event
  | .delivery (.missed _) => some .resync
  | .comment _ => none

/-- A comment is a single line. -/
def IsSound : Part → Prop
  | .delivery _ => True
  | .comment line => IsOneLine line.toList

end Part

/-- What the reader of events makes of a frame. -/
def Frame.reading (frame : Frame) : Except DecodeFault (Option Event) :=
  Event.decode frame.event frame.data

theorem splitFrame?_frameText {event data : String} (hevent : IsOneLine event.toList)
    (hdata : IsOneLine data.toList) (rest : List UInt8) :
    ∃ frame, splitFrame? (Utf8.encode (frameText event data) ++ rest) = some (frame, rest) ∧
      frameOf? (Utf8.decodeLossy frame) = some ⟨event, data⟩ := by
  have htext : (frameText event data).toList =
      framed [fieldLine "event".toList event.toList, fieldLine "data".toList data.toList] := by
    simp [frameText, framed, fieldLine]
  have hheard := heard_frame event.toList data.toList
  rw [String.ofList_toList, String.ofList_toList] at hheard
  rw [Utf8.encode, htext, ← hheard]
  refine splitFrame?_framed (List.cons_ne_nil _ _) ?_ rest
  have hline : ∀ {name value : List Char}, IsOneLine name → IsOneLine value →
      fieldLine name value ≠ [] ∧ IsOneLine (fieldLine name value) := by
    intro name value hname hvalue
    refine ⟨by simp [fieldLine], List.forall_mem_append.mpr ⟨hname, ?_⟩⟩
    exact List.forall_mem_cons.mpr ⟨by decide, List.forall_mem_cons.mpr ⟨by decide, hvalue⟩⟩
  simp only [List.forall_mem_cons]
  exact ⟨hline (by simp [IsOneLine]) hevent, hline (by simp [IsOneLine]) hdata, nofun⟩

/-- A text without control characters is a single line. -/
theorem AreVisible.isOneLine {cs : List Char} (h : AreVisible cs) : IsOneLine cs :=
  fun _ hc ↦ h.ne_lineEnd hc

theorem areVisible_channel (event : Event) : AreVisible event.channel.toList := by
  cases event with
  | claimTransfer => exact (by decide : AreVisible Event.claimTransferChannel.toList)
  | actionCompleted => exact (by decide : AreVisible Event.actionCompletedChannel.toList)
  | resync => exact (by decide : AreVisible Event.resyncChannel.toList)

/-- A part of a stream is a frame of its own, which is read as the event of the part. -/
theorem Part.splitFrame? {part : Part} (sound : part.IsSound) (rest : List UInt8) :
    ∃ frame, EventStream.splitFrame? (Utf8.encode part.text ++ rest) = some (frame, rest) ∧
      (frameOf? (Utf8.decodeLossy frame)).map Frame.reading =
        part.event?.map fun event ↦ .ok (some event) := by
  match part, sound with
  | .delivery (.message event), _ =>
    have hchannel : IsOneLine event.channel.toList :=
      AreVisible.isOneLine (areVisible_channel event)
    have hpayload : IsOneLine event.payloadText.toList :=
      AreVisible.isOneLine event.payload.areVisible_text
    obtain ⟨frame, hsplit, hframe⟩ := splitFrame?_frameText hchannel hpayload rest
    refine ⟨frame, by rw [text, deliveryText, eventText, hsplit], ?_⟩
    rw [hframe]
    exact congrArg some event.decode_payloadText
  | .delivery (.missed count), _ =>
    have hpayload : IsOneLine (Json.object [("skipped", .ofNat count)]).text.toList :=
      AreVisible.isOneLine (Json.areVisible_text _)
    have hchannel : IsOneLine Event.resyncChannel.toList :=
      AreVisible.isOneLine (areVisible_channel .resync)
    obtain ⟨frame, hsplit, hframe⟩ := splitFrame?_frameText hchannel hpayload rest
    refine ⟨frame, by rw [text, deliveryText, hsplit], ?_⟩
    rw [hframe]
    exact congrArg some (Event.decode_resync _)
  | .comment line, sound =>
    have hlines : ∀ cs ∈ [':' :: line.toList], cs ≠ [] ∧ IsOneLine cs :=
      List.forall_mem_singleton.mpr
        ⟨List.cons_ne_nil _ _, List.forall_mem_cons.mpr ⟨by decide, sound⟩⟩
    have htext : (":" ++ line ++ "\n\n").toList = framed [':' :: line.toList] := by
      simp [framed]
    obtain ⟨frame, hsplit, hframe⟩ := splitFrame?_framed (List.cons_ne_nil _ _) hlines rest
    refine ⟨frame, ?_, ?_⟩
    · rw [Part.text, Utf8.encode, htext, hsplit]
    · rw [hframe, heard_comment]
      rfl

/-- The parts of a stream are its frames. -/
theorem splitFrames_parts {parts : List Part} (sound : ∀ part ∈ parts, part.IsSound) :
    ∃ frames, splitFrames (parts.flatMap fun part ↦ Utf8.encode part.text) = (frames, []) ∧
      frames.filterMap (fun frame ↦ (frameOf? (Utf8.decodeLossy frame)).map Frame.reading) =
        parts.filterMap fun part ↦ part.event?.map fun event ↦ .ok (some event) := by
  induction parts with
  | nil => exact ⟨[], splitFrames_of_none rfl, rfl⟩
  | cons part parts ih =>
    obtain ⟨hpart, hparts⟩ := List.forall_mem_cons.mp sound
    obtain ⟨frames, hsplits, hframes⟩ := ih hparts
    obtain ⟨frame, hsplit, hframe⟩ :=
      Part.splitFrame? hpart (parts.flatMap fun part ↦ Utf8.encode part.text)
    refine ⟨frame :: frames, ?_, ?_⟩
    · rw [List.flatMap_cons, splitFrames_of_some hsplit, hsplits]
    · rw [List.filterMap_cons, List.filterMap_cons, hframe, hframes]

/-- However the bytes of a stream are cut, what is read of them are the events that were sent, and
no byte is left. -/
theorem readings_pushAll {parts : List Part} (sound : ∀ part ∈ parts, part.IsSound)
    {chunks : List (List UInt8)}
    (cut : chunks.flatten = parts.flatMap fun part ↦ Utf8.encode part.text) :
    (Decoder.empty.pushAll chunks).1.map Frame.reading =
        (parts.filterMap Part.event?).map (fun event ↦ .ok (some event)) ∧
      (Decoder.empty.pushAll chunks).2 = Decoder.empty := by
  obtain ⟨frames, hsplits, hframes⟩ := splitFrames_parts sound
  rw [Decoder.pushAll_eq _ rfl, cut]
  simp only [Decoder.empty, List.nil_append, hsplits, List.map_filterMap, hframes, and_self]

/-- The bytes may be cut within a character, and in the middle of the end of a frame. -/
theorem readings_of_cut_character :
    let transfer := ClaimTransfer.taken 1 ⟨⟨7, "é"⟩, false⟩
    let parts : List Part :=
      [.comment "", .delivery (.message (.claimTransfer transfer)), .delivery (.missed 3),
        .comment " alive"]
    let bytes := parts.flatMap fun part ↦ Utf8.encode part.text
    bytes[72]? = some 0xc3 ∧ bytes[73]? = some 0xa9 ∧
      (Decoder.empty.pushAll [bytes.take 2, (bytes.drop 2).take 71, bytes.drop 73]).1.map
          Frame.reading =
        [.ok (some (.claimTransfer transfer)), .ok (some .resync)] := by
  intro transfer parts bytes
  have hsound : ∀ part ∈ parts, part.IsSound := by
    simp [parts, Part.IsSound, IsOneLine]
  have hcut : [bytes.take 2, (bytes.drop 2).take 71, bytes.drop 73].flatten = bytes := by
    simp only [List.flatten_cons, List.flatten_nil, List.append_nil]
    rw [← List.drop_drop (i := 71) (j := 2), List.take_append_drop, List.take_append_drop]
  have hcharacter : bytes[72]? = some 0xc3 ∧ bytes[73]? = some 0xa9 := by decide +kernel
  exact ⟨hcharacter.1, hcharacter.2, (readings_pushAll hsound hcut).1⟩

end Moderation.EventStream
