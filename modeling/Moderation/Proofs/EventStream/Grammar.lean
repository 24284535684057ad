import Mathlib.Data.List.TakeWhile
import Moderation.Proofs.EventStream

/-!
# The lines of an event stream

By its grammar an event stream is a sequence of lines, of which each ends with a line feed or with a
carriage return and a line feed. An empty line ends an event, and the other lines give the event its
name and its data. What is read of a stream are the events of the grammar but for one kind of line:
an empty line with a carriage return is not noticed after a line without one.
-/

namespace Moderation.EventStream

namespace Grammar

/-- What a line has behind the name of a field, less the colon and one blank. -/
def value : List Char → List Char
  | ':' :: ' ' :: rest => rest
  | ':' :: rest => rest
  | _ => []

/-- The name and the value that a line gives; a comment gives none. -/
def field? (line : List Char) : Option (List Char × List Char) :=
  if line.head? = some ':' then none
  else some (line.takeWhile (· ≠ ':'), value (line.dropWhile (· ≠ ':')))

/-- The values that some lines give to a name. -/
def values (name : String) (lines : List (List Char)) : List (List Char) :=
  (lines.filterMap field?).filterMap fun (given, value) ↦
    if given = name.toList then some value else none

/-- The event of the lines before an empty line. -/
def event? (lines : List (List Char)) : Option Frame :=
  if values "data" lines = [] then none
  else some {
    event := ((values "event" lines).getLast?.map String.ofList).getD "message"
    data := String.ofList (List.intercalate ['\n'] (values "data" lines)) }

/-- The events that some lines end, after the lines that were read of the first. -/
def eventsFrom (read : List (List Char)) : List (List Char) → List Frame
  | [] => []
  | line :: lines =>
    if line = [] then (event? read).toList ++ eventsFrom [] lines
    else eventsFrom (read ++ [line]) lines

/-- The events of a stream of lines. Lines without an empty line after them are no event yet. -/
def events (lines : List (List Char)) : List Frame := eventsFrom [] lines

end Grammar

open Grammar

inductive LineEnd where
  | feed
  | returnFeed
deriving DecidableEq

def LineEnd.chars : LineEnd → List Char
  | feed => ['\n']
  | returnFeed => ['\r', '\n']

structure Line where
  text : List Char
  ending : LineEnd

namespace Line

def chars (line : Line) : List Char := line.text ++ line.ending.chars

/-- An empty line with a carriage return, after a line that ended without one. -/
def IsMissed (before : LineEnd) (line : Line) : Prop :=
  line.text = [] ∧ before = .feed ∧ line.ending = .returnFeed

instance (before : LineEnd) (line : Line) : Decidable (line.IsMissed before) :=
  inferInstanceAs (Decidable (_ ∧ _))

end Line

/-- The characters of some lines. -/
def textOf (lines : List Line) : List Char := lines.flatMap Line.chars

/-- The lines that are noticed behind a line that ended so. -/
def noticed (before : LineEnd) : List Line → List (List Char)
  | [] => []
  | line :: lines =>
    if line.IsMissed before then noticed line.ending lines
    else line.text :: noticed line.ending lines

/-- Where no line is missed all of them are noticed. -/
theorem noticed_of_isChain {before : LineEnd} {lines : List Line}
    (first : ∀ line ∈ lines.head?, ¬ line.IsMissed before)
    (chain : lines.IsChain fun line next ↦ ¬ next.IsMissed line.ending) :
    noticed before lines = lines.map Line.text := by
  induction lines generalizing before with
  | nil => rfl
  | cons line lines ih =>
    rw [noticed, if_neg (first line rfl), ih ?_ chain.tail]
    · rfl
    · cases lines with
      | nil => nofun
      | cons next lines =>
        rintro _ ⟨⟩
        exact (List.isChain_cons_cons.mp chain).1

/-- A line is split at its first colon. -/
theorem field_eq (line : List Char) :
    field line = (line.takeWhile (· ≠ ':'), value (line.dropWhile (· ≠ ':'))) := by
  by_cases h : ':' ∈ line
  · obtain ⟨name, rest, rfl, hname⟩ := List.eq_append_cons_of_mem h
    have hall : ∀ c ∈ name, decide (c ≠ ':') = true :=
      fun c hc ↦ decide_eq_true (ne_of_mem_of_not_mem hc hname)
    rw [field, Text.cut_append hname, List.takeWhile_append_of_pos hall,
      List.dropWhile_append_of_pos hall]
    obtain _ | ⟨c, rest⟩ := rest
    · simp [value]
    · by_cases hc : c = ' '
      · simp [hc, value]
      · simp [hc, value]
  · have hall : ∀ c ∈ line, decide (c ≠ ':') = true :=
      fun c hc ↦ decide_eq_true (ne_of_mem_of_not_mem hc h)
    rw [field, Text.cut_of_not_mem h, List.takeWhile_eq_self_iff.mpr hall,
      List.dropWhile_eq_nil_iff.mpr hall]
    rfl

theorem values_append (name : String) (lines more : List (List Char)) :
    values name (lines ++ more) = values name lines ++ values name more := by
  simp only [values, List.filterMap_append]

theorem values_of_head?_ne {line : List Char} (h : line.head? ≠ some ':') (name : String) :
    values name [line] = if (field line).1 = name.toList then [(field line).2] else [] := by
  rw [field_eq]
  simp only [values, field?, if_neg h, List.filterMap_cons, List.filterMap_nil]
  split <;> simp_all

/-- Empty lines and comments give no value to a name. -/
theorem values_of_quiet {name : String} (named : name ≠ "") {line : List Char}
    (h : line.isEmpty || line.head? == some ':') : values name [line] = [] := by
  rcases Bool.or_eq_true_iff.mp h with hempty | hcomment
  · have hname : ¬ ([] : List Char) = name.toList :=
      fun heq ↦ named (String.toList_eq_nil_iff.mp heq.symm)
    rw [List.isEmpty_iff.mp hempty, values_of_head?_ne (by simp)]
    exact if_neg hname
  · simp [values, field?, beq_iff_eq.mp hcomment]

theorem event?_nil_cons (read lines : List (List Char)) :
    event? (read ++ [] :: lines) = event? (read ++ lines) := by
  have hvalues : ∀ name : String, name ≠ "" →
      values name (read ++ [] :: lines) = values name (read ++ lines) := by
    intro name named
    rw [← List.singleton_append, values_append, values_append, values_of_quiet named rfl,
      List.nil_append, ← values_append]
  rw [event?, event?, hvalues "data" (by decide), hvalues "event" (by decide)]

/-- What one more line changes is what it gives to the two names. -/
theorem add_eq (draft : Draft) (line : List Char) :
    draft.add line =
      ⟨(values "event" [line]).getLast?.or draft.event, draft.data ++ values "data" [line]⟩ := by
  rw [Draft.add]
  by_cases hquiet : line.isEmpty || line.head? == some ':'
  · rw [if_pos hquiet, values_of_quiet (by decide) hquiet, values_of_quiet (by decide) hquiet,
      List.append_nil]
    rfl
  · have hhead : line.head? ≠ some ':' :=
      fun hhead ↦ hquiet (Bool.or_eq_true_iff.mpr (.inr (beq_iff_eq.mpr hhead)))
    rw [if_neg hquiet, values_of_head?_ne hhead, values_of_head?_ne hhead]
    obtain ⟨name, value⟩ := field line
    dsimp only
    by_cases hevent : name = "event".toList
    · have hdata : name ≠ "data".toList := by
        rw [hevent]
        decide
      rw [if_pos hevent, if_pos hevent, if_neg hdata, List.append_nil]
      rfl
    · by_cases hdata : name = "data".toList
      · rw [if_neg hevent, if_neg hevent, if_pos hdata, if_pos hdata]
        rfl
      · rw [if_neg hevent, if_neg hevent, if_neg hdata, if_neg hdata, List.append_nil]
        rfl

theorem foldl_add (draft : Draft) (lines : List (List Char)) :
    lines.foldl Draft.add draft =
      ⟨(values "event" lines).getLast?.or draft.event, draft.data ++ values "data" lines⟩ := by
  induction lines generalizing draft with
  | nil => simp [values]
  | cons line lines ih =>
    have hcons : ∀ name, values name (line :: lines) = values name [line] ++ values name lines :=
      fun name ↦ values_append name [line] lines
    rw [List.foldl_cons, ih, add_eq, hcons, hcons, List.getLast?_append, List.append_assoc,
      Option.or_assoc]

/-- What is heard of some lines is the event that the grammar makes of them. -/
theorem heard_eq (lines : List (List Char)) : heard lines = event? lines := by
  have hdefault : (default : Draft) = ⟨none, []⟩ := rfl
  rw [heard, foldl_add, hdefault, Draft.frame?, event?]
  simp only [List.nil_append, Option.or_none, List.isEmpty_iff]
  rfl

/-- The lines in a text, less the carriage returns at their ends. -/
def linesIn (cs : List Char) : List (List Char) := (Text.splitOn '\n' cs).map dropReturns

theorem frameOf?_eq (cs : List Char) : frameOf? cs = event? (linesIn cs) := by
  rw [← heard_eq]
  rfl

theorem dropReturns_append {cs ds : List Char} (h : IsOneLine cs) (returns : dropReturns ds = []) :
    dropReturns (cs ++ ds) = cs := by
  have hnone : ds.reverse.dropWhile (· == '\r') = [] := List.reverse_eq_nil_iff.mp returns
  rw [dropReturns, List.reverse_append, List.dropWhile_append, hnone]
  exact dropReturns_of_isOneLine h

/-- A text before an empty line is that line. -/
theorem linesIn_append {cs ds : List Char} (h : IsOneLine cs) {lines : List (List Char)}
    (split : linesIn ds = [] :: lines) : linesIn (cs ++ ds) = cs :: lines := by
  have hmark : '\n' ∉ cs := fun hmem ↦ (h _ hmem).1 rfl
  obtain ⟨part, parts, hparts, hpart, rfl⟩ := List.map_eq_cons_iff.mp split
  rw [linesIn, Text.splitOn_append_left hmark hparts, List.map_cons, dropReturns_append h hpart]

/-- The end of a line is an empty line and what follows it. -/
theorem linesIn_ending (ending : LineEnd) (cs : List Char) :
    linesIn (ending.chars ++ cs) = [] :: linesIn cs := by
  cases ending with
  | feed => rfl
  | returnFeed => rfl

/-! ## Events of lines -/

namespace Line

variable {before : LineEnd} {line : Line}

/-- What a line adds to the lines of an event. -/
def said (line : Line) : List (List Char) := if line.text = [] then [] else [line.text]

theorem event?_said (read texts : List (List Char)) (line : Line) :
    event? (read ++ line.said ++ texts) = event? (read ++ line.text :: texts) := by
  unfold said
  split
  · rename_i hempty
    rw [hempty, event?_nil_cons, List.append_nil]
  · rw [List.append_assoc, List.singleton_append]

/-- A line with a text, and one that is missed, ends no event. -/
theorem eventsFrom_of_inside (inside : line.text = [] → line.IsMissed before)
    (read : List (List Char)) (lines : List Line) :
    eventsFrom read (noticed before (line :: lines)) =
      eventsFrom (read ++ line.said) (noticed line.ending lines) := by
  rw [noticed, said]
  by_cases hempty : line.text = []
  · rw [if_pos (inside hempty), if_pos hempty, List.append_nil]
  · rw [if_neg (fun h ↦ hempty h.1), if_neg hempty, eventsFrom, if_neg hempty]

theorem eventsFrom_of_ends (empty : line.text = []) (ends : ¬ line.IsMissed before)
    (read : List (List Char)) (lines : List Line) :
    eventsFrom read (noticed before (line :: lines)) =
      (event? read).toList ++ eventsFrom [] (noticed line.ending lines) := by
  rw [noticed, if_neg ends, eventsFrom, if_pos empty]

/-- Before the first line of an event there is nothing to end. -/
theorem eventsFrom_first (before : LineEnd) (line : Line) (lines : List Line) :
    eventsFrom [] (noticed before (line :: lines)) =
      eventsFrom line.said (noticed line.ending lines) := by
  by_cases inside : line.text = [] → line.IsMissed before
  · exact eventsFrom_of_inside inside [] lines
  · obtain ⟨hempty, hends⟩ := Classical.not_imp.mp inside
    rw [eventsFrom_of_ends hempty hends, said, if_pos hempty]
    rfl

end Line

section

variable {before : LineEnd} {line : Line} {lines : List Line} {text : List Char}

theorem textOf_cons (line : Line) (lines : List Line) :
    textOf (line :: lines) = line.text ++ (line.ending.chars ++ textOf lines) := by
  rw [textOf, List.flatMap_cons, Line.chars, List.append_assoc]
  rfl

/-- The end of a line within a frame. -/
theorem splitFrame?_ending_cons (before : LineEnd) {b : UInt8} (hb : b ≠ 10 ∧ b ≠ 13)
    (bytes : List UInt8) :
    splitFrame? (Utf8.encodeChars before.chars ++ b :: bytes) =
      (splitFrame? (b :: bytes)).map fun (frame, left) ↦
        (Utf8.encodeChars before.chars ++ frame, left) := by
  have hfeed : splitFrame? (10 :: b :: bytes) =
      (splitFrame? (b :: bytes)).map fun (frame, left) ↦ (10 :: frame, left) :=
    splitFrame?_cons (fun _ _ heq ↦ hb.1 (List.cons.inj heq).1) (fun _ heq ↦ absurd heq (by decide))
  cases before with
  | feed => exact hfeed
  | returnFeed =>
    change splitFrame? (13 :: 10 :: b :: bytes) = _
    rw [splitFrame?_cons (fun _ heq ↦ absurd heq (by decide)), hfeed, Option.map_map]
    · rfl
    · exact fun _ _ heq ↦ hb.2 (List.cons.inj (List.cons.inj heq).2).1

/-- A line with a text, and one that is missed, ends no frame. -/
theorem splitFrame?_inside (inside : line.text = [] → line.IsMissed before)
    (oneLine : IsOneLine line.text) (bytes : List UInt8) :
    splitFrame? (Utf8.encodeChars (before.chars ++ line.text) ++
        (Utf8.encodeChars line.ending.chars ++ bytes)) =
      (splitFrame? (Utf8.encodeChars line.ending.chars ++ bytes)).map fun (frame, left) ↦
        (Utf8.encodeChars (before.chars ++ line.text) ++ frame, left) := by
  obtain ⟨text, ending⟩ := line
  dsimp only at inside oneLine ⊢
  by_cases hempty : text = []
  -- A carriage return after a line feed is the beginning of no end.
  · obtain ⟨-, rfl, rfl⟩ := inside hempty
    subst hempty
    exact splitFrame?_cons (fun _ _ heq ↦ absurd (List.cons.inj heq).1 (by decide))
      (fun _ heq ↦ absurd heq (by decide))
  · obtain ⟨b, more, hbytes⟩ := List.exists_cons_of_ne_nil (Utf8.encodeChars_ne_nil hempty)
    have hunbroken := oneLine.isUnbroken
    rw [hbytes] at hunbroken
    rw [Utf8.encodeChars_append, List.append_assoc, hbytes, List.cons_append,
      splitFrame?_ending_cons before (hunbroken b List.mem_cons_self), ← List.cons_append,
      splitFrame?_unbroken hunbroken, Option.map_map]
    refine Option.map_congr fun found _ ↦ ?_
    simp

/-- An empty line that is not missed ends the frame. At most a carriage return stays of the line
before it. -/
theorem splitFrame?_ends (empty : line.text = []) (ends : ¬ line.IsMissed before)
    (rest : List UInt8) :
    ∃ cs, linesIn cs = [[]] ∧
      splitFrame? (Utf8.encodeChars (before.chars ++ line.text) ++
        (Utf8.encodeChars line.ending.chars ++ rest)) = some (Utf8.encodeChars cs, rest) := by
  obtain ⟨text, ending⟩ := line
  dsimp only at empty
  subst empty
  cases before with
  | feed =>
    cases ending with
    | feed => exact ⟨[], rfl, rfl⟩
    | returnFeed => exact absurd ⟨rfl, rfl, rfl⟩ ends
  | returnFeed =>
    cases ending with
    | feed => exact ⟨['\r'], rfl, rfl⟩
    | returnFeed => exact ⟨[], rfl, rfl⟩

/-- After the end of a line some lines have a first frame, and its lines are those of the first
event that is noticed. -/
structure HasFirst (before : LineEnd) (lines : List Line) (frame : List Char)
    (texts : List (List Char)) (last : LineEnd) (rest : List Line) : Prop where
  shorter : rest.length < lines.length
  split : splitFrame? (Utf8.encodeChars (before.chars ++ textOf lines)) =
    some (Utf8.encodeChars frame, Utf8.encodeChars (textOf rest))
  lines_eq : linesIn frame = [] :: texts
  events_eq : ∀ read, eventsFrom read (noticed before lines) =
    (event? (read ++ texts)).toList ++ eventsFrom [] (noticed last rest)
  suffix : rest <:+ lines

/-- No frame is complete in the lines, and no event. -/
structure HasNone (before : LineEnd) (lines : List Line) : Prop where
  split : splitFrame? (Utf8.encodeChars (before.chars ++ textOf lines)) = none
  events_eq : ∀ read, eventsFrom read (noticed before lines) = []

theorem encodeChars_ending_textOf (before : LineEnd) (line : Line) (lines : List Line) :
    Utf8.encodeChars (before.chars ++ textOf (line :: lines)) =
      Utf8.encodeChars (before.chars ++ line.text) ++
        (Utf8.encodeChars line.ending.chars ++ Utf8.encodeChars (textOf lines)) := by
  rw [textOf_cons, ← List.append_assoc, Utf8.encodeChars_append _ (_ ++ _),
    Utf8.encodeChars_append line.ending.chars]

theorem HasFirst.cons {frame : List Char} {texts : List (List Char)} {last : LineEnd}
    {rest : List Line} (h : HasFirst line.ending lines frame texts last rest)
    (inside : line.text = [] → line.IsMissed before) (oneLine : IsOneLine line.text) :
    HasFirst before (line :: lines) (before.chars ++ (line.text ++ frame)) (line.text :: texts)
      last rest where
  shorter := Nat.lt_succ_of_lt h.shorter
  split := by
    have hsplit := h.split
    rw [Utf8.encodeChars_append] at hsplit
    rw [encodeChars_ending_textOf, splitFrame?_inside inside oneLine, hsplit,
      ← List.append_assoc, Utf8.encodeChars_append (before.chars ++ line.text)]
    rfl
  lines_eq := by rw [linesIn_ending, linesIn_append oneLine h.lines_eq]
  events_eq := fun read ↦ by
    rw [Line.eventsFrom_of_inside inside, h.events_eq, Line.event?_said]
  suffix := h.suffix.trans (List.suffix_cons line lines)

theorem HasNone.cons (h : HasNone line.ending lines)
    (inside : line.text = [] → line.IsMissed before) (oneLine : IsOneLine line.text) :
    HasNone before (line :: lines) where
  split := by
    have hsplit := h.split
    rw [Utf8.encodeChars_append] at hsplit
    rw [encodeChars_ending_textOf, splitFrame?_inside inside oneLine, hsplit]
    rfl
  events_eq := fun read ↦ by rw [Line.eventsFrom_of_inside inside, h.events_eq]

/-- The first frame of some lines is their first event. -/
theorem hasNone_or_hasFirst (before : LineEnd) (oneLine : ∀ line ∈ lines, IsOneLine line.text) :
    HasNone before lines ∨ ∃ frame texts last rest, HasFirst before lines frame texts last rest := by
  induction lines generalizing before with
  | nil => exact .inl ⟨by cases before <;> rfl, fun _ ↦ rfl⟩
  | cons line lines ih =>
    obtain ⟨hline, hlines⟩ := List.forall_mem_cons.mp oneLine
    -- Every line belongs to the first frame up to an empty one that is not missed.
    by_cases inside : line.text = [] → line.IsMissed before
    · rcases ih line.ending hlines with hnone | ⟨frame, texts, last, rest, hfirst⟩
      · exact .inl (hnone.cons inside hline)
      · exact .inr ⟨_, _, last, rest, hfirst.cons inside hline⟩
    · obtain ⟨hempty, hends⟩ := Classical.not_imp.mp inside
      obtain ⟨frame, hframe, hsplit⟩ :=
        splitFrame?_ends hempty hends (Utf8.encodeChars (textOf lines))
      refine .inr ⟨frame, [], line.ending, lines, Nat.lt_succ_self _, ?_, hframe, fun read ↦ ?_,
        List.suffix_cons line lines⟩
      · rw [encodeChars_ending_textOf, hsplit]
      · rw [Line.eventsFrom_of_ends hempty hends, List.append_nil]

end

/-! ## The stream -/

theorem filterMap_frameOf?_cons (cs : List Char) (frames : List (List UInt8)) :
    (Utf8.encodeChars cs :: frames).filterMap (fun frame ↦ frameOf? (Utf8.decodeLossy frame)) =
      (event? (linesIn cs)).toList ++
        frames.filterMap fun frame ↦ frameOf? (Utf8.decodeLossy frame) := by
  rw [List.filterMap_cons, Utf8.decodeLossy_encodeChars, frameOf?_eq]
  cases event? (linesIn cs) <;> rfl

/-- The frames of some lines are the events that are noticed in them. -/
theorem frames_textOf (before : LineEnd) {lines : List Line}
    (oneLine : ∀ line ∈ lines, IsOneLine line.text) :
    (splitFrames (Utf8.encodeChars (textOf lines))).1.filterMap
        (fun frame ↦ frameOf? (Utf8.decodeLossy frame)) =
      events (noticed before lines) := by
  -- The lines behind the first frame are fewer, but not one fewer.
  induction hlength : lines.length using Nat.strong_induction_on generalizing before lines with
  | _ length ih =>
    subst hlength
    cases lines with
    | nil => rw [show textOf [] = [] from rfl, splitFrames_of_none rfl]; rfl
    | cons line lines =>
      obtain ⟨hline, hlines⟩ := List.forall_mem_cons.mp oneLine
      have hbytes : Utf8.encodeChars (textOf (line :: lines)) =
          Utf8.encodeChars line.text ++ Utf8.encodeChars (line.ending.chars ++ textOf lines) := by
        rw [textOf_cons, Utf8.encodeChars_append]
      have hwhole := splitFrame?_unbroken hline.isUnbroken
        (Utf8.encodeChars (line.ending.chars ++ textOf lines))
      rw [events, Line.eventsFrom_first, hbytes]
      rcases hasNone_or_hasFirst line.ending hlines with hnone | ⟨frame, texts, last, rest, hfirst⟩
      · rw [hnone.split] at hwhole
        rw [splitFrames_of_none hwhole, hnone.events_eq]
        rfl
      · rw [hfirst.split] at hwhole
        have hframe : Utf8.encodeChars line.text ++ Utf8.encodeChars frame =
            Utf8.encodeChars (line.text ++ frame) := (Utf8.encodeChars_append _ _).symm
        have hrest := ih rest.length (Nat.lt_succ_of_lt hfirst.shorter) last
          (fun line hmem ↦ hlines line (hfirst.suffix.subset hmem)) rfl
        have htexts := Line.event?_said [] texts line
        rw [List.nil_append, List.nil_append] at htexts
        rw [splitFrames_of_some hwhole, hframe, filterMap_frameOf?_cons, hrest, hfirst.events_eq,
          htexts, linesIn_append hline hfirst.lines_eq]
        rfl

/-- However the bytes of some lines are cut, what is read are the events of the lines that are
noticed: of all of them, unless an empty line with a carriage return follows a line without one. -/
theorem frames_of_lines {lines : List Line} (oneLine : ∀ line ∈ lines, IsOneLine line.text)
    {chunks : List (List UInt8)} (cut : chunks.flatten = Utf8.encodeChars (textOf lines)) :
    (Decoder.empty.pushAll chunks).1 = events (noticed .returnFeed lines) ∧
      (lines.IsChain (fun line next ↦ ¬ next.IsMissed line.ending) →
        (Decoder.empty.pushAll chunks).1 = events (lines.map Line.text)) := by
  have hframes : (Decoder.empty.pushAll chunks).1 = events (noticed .returnFeed lines) := by
    rw [Decoder.pushAll_eq _ rfl, cut]
    exact frames_textOf .returnFeed oneLine
  refine ⟨hframes, fun chain ↦ ?_⟩
  have hfirst : ∀ line ∈ lines.head?, ¬ line.IsMissed .returnFeed := fun line _ h ↦ nomatch h.2.1
  rw [hframes, noticed_of_isChain hfirst chain]

/-- The lines of an event may end in both ways. -/
theorem frames_of_mixed_lines :
    let lines : List Line := [⟨":".toList, .feed⟩, ⟨"event: x".toList, .returnFeed⟩,
      ⟨"data:  é".toList, .feed⟩, ⟨"data".toList, .returnFeed⟩, ⟨[], .feed⟩,
      ⟨"id: 1".toList, .returnFeed⟩, ⟨[], .returnFeed⟩, ⟨"data: b".toList, .feed⟩, ⟨[], .feed⟩]
    let bytes := Utf8.encodeChars (textOf lines)
    (∀ line ∈ lines, IsOneLine line.text) ∧
      lines.IsChain (fun line next ↦ ¬ next.IsMissed line.ending) ∧
      (Decoder.empty.pushAll [bytes.take 21, bytes.drop 21]).1 =
        [⟨"x", " é\n"⟩, ⟨"message", "b"⟩] := by
  intro lines bytes
  have hsound : ∀ line ∈ lines, IsOneLine line.text := by
    simp [lines, IsOneLine]
  have hchain : lines.IsChain (fun line next ↦ ¬ next.IsMissed line.ending) := by
    simp [lines, Line.IsMissed]
  have hcut : [bytes.take 21, bytes.drop 21].flatten = bytes := by
    simp only [List.flatten_cons, List.flatten_nil, List.append_nil, List.take_append_drop]
  refine ⟨hsound, hchain, ?_⟩
  rw [(frames_of_lines hsound hcut).2 hchain]
  decide +kernel

/-- An event is not read where its lines end with line feeds and the empty line with a carriage
return and a line feed: it runs on into the next event. -/
theorem events_joined_over_missed_line :
    let lines : List Line := [⟨"data: a".toList, .feed⟩, ⟨[], .returnFeed⟩]
    let more : List Line := [⟨"data: b".toList, .feed⟩, ⟨[], .feed⟩]
    (Decoder.empty.push (Utf8.encodeChars (textOf lines))).1 = [] ∧
      events (lines.map Line.text) = [⟨"message", "a"⟩] ∧
      (Decoder.empty.push (Utf8.encodeChars (textOf (lines ++ more)))).1 =
        [⟨"message", "a\nb"⟩] ∧
      events ((lines ++ more).map Line.text) = [⟨"message", "a"⟩, ⟨"message", "b"⟩] := by
  intro lines more
  refine ⟨?_, ?_, ?_, ?_⟩
  · decide +kernel
  · decide +kernel
  · decide +kernel
  · decide +kernel

end Moderation.EventStream
