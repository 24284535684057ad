import Moderation.Mailbox
import Moderation.Text.Split
import Moderation.Text.Utf8
import Moderation.Wire.Event

/-!
# Event streams

An event stream is a text of frames. A frame has a name and data, spread over lines, and ends with
an empty line. The reader is fed with bytes as they arrive, cut anywhere, and gives back the
frames that are complete.
-/

namespace Moderation.EventStream

structure Frame where
  event : String
  data : String
deriving DecidableEq, Repr

/-- The bytes before the first empty line and the bytes after it. Both ends of line count, but an
empty line ends as the line before it does. -/
def splitFrame? : List UInt8 → Option (List UInt8 × List UInt8)
  | [] => none
  | 10 :: 10 :: rest => some ([], rest)
  | 13 :: 10 :: 13 :: 10 :: rest => some ([], rest)
  | b :: rest => (splitFrame? rest).map fun (frame, left) ↦ (b :: frame, left)

theorem length_of_splitFrame? {bytes frame rest : List UInt8}
    (h : splitFrame? bytes = some (frame, rest)) : rest.length < bytes.length := by
  fun_induction splitFrame? bytes generalizing frame with
  | case1 => simp at h
  | case2 rest' =>
    simp only [Option.some.injEq, Prod.mk.injEq] at h
    obtain ⟨-, rfl⟩ := h
    simp only [List.length_cons]
    omega
  | case3 rest' =>
    simp only [Option.some.injEq, Prod.mk.injEq] at h
    obtain ⟨-, rfl⟩ := h
    simp only [List.length_cons]
    omega
  | case4 b rest' _ _ ih =>
    obtain ⟨⟨frame', left⟩, hsplit, heq⟩ := Option.map_eq_some_iff.1 h
    simp only [Prod.mk.injEq] at heq
    obtain ⟨-, rfl⟩ := heq
    have := ih hsplit
    simp only [List.length_cons]
    omega

/-- All complete frames in some bytes, and the bytes after them. -/
def splitFrames (bytes : List UInt8) : List (List UInt8) × List UInt8 :=
  match _h : splitFrame? bytes with
  | some (frame, rest) =>
    let (frames, left) := splitFrames rest
    (frame :: frames, left)
  | none => ([], bytes)
termination_by bytes.length
decreasing_by exact length_of_splitFrame? _h

/-- A line without the ends of line that are left on it. -/
def dropReturns (line : List Char) : List Char :=
  (line.reverse.dropWhile (· == '\r')).reverse

/-- The field of a line and its value, less one blank before it. -/
def field (line : List Char) : List Char × List Char :=
  match Text.cut ':' line with
  | (name, some (' ' :: value)) => (name, value)
  | (name, some value) => (name, value)
  | (name, none) => (name, [])

/-- What the lines of a frame said so far. -/
structure Draft where
  event : Option (List Char)
  data : List (List Char)
deriving Inhabited

/-- One line more. Empty lines and comments say nothing. -/
def Draft.add (draft : Draft) (line : List Char) : Draft :=
  if line.isEmpty || line.head? == some ':' then draft
  else
    let (name, value) := field line
    if name = "event".toList then { draft with event := some value }
    else if name = "data".toList then { draft with data := draft.data ++ [value] }
    else draft

/-- The name of a frame that has none. -/
def defaultEvent : String := "message"

/-- A frame without data is none. -/
def Draft.frame? (draft : Draft) : Option Frame :=
  if draft.data.isEmpty then none
  else some {
    event := (draft.event.map String.ofList).getD defaultEvent
    data := String.ofList (List.intercalate ['\n'] draft.data) }

def frameOf? (text : List Char) : Option Frame :=
  ((((Text.splitOn '\n' text).map dropReturns).foldl Draft.add default)).frame?

/-- The bytes of the frame that is not complete. -/
structure Decoder where
  buffer : List UInt8
deriving DecidableEq, Repr, Inhabited

namespace Decoder

def empty : Decoder := ⟨[]⟩

/-- The frames that are complete with some more bytes. -/
def push (decoder : Decoder) (chunk : List UInt8) : List Frame × Decoder :=
  let (frames, left) := splitFrames (decoder.buffer ++ chunk)
  (frames.filterMap fun frame ↦ frameOf? (Utf8.decodeLossy frame), ⟨left⟩)

/-- The frames of some chunks one after another. -/
def pushAll (decoder : Decoder) : List (List UInt8) → List Frame × Decoder
  | [] => ([], decoder)
  | chunk :: chunks =>
    let (frames, decoder) := decoder.push chunk
    let (more, decoder) := decoder.pushAll chunks
    (frames ++ more, decoder)

end Decoder

/-- The text of a frame whose data is one line. -/
def frameText (event data : String) : String :=
  "event: " ++ event ++ "\ndata: " ++ data ++ "\n\n"

def eventText (event : Event) : String := frameText event.channel event.payloadText

/-- What a stream sends for something from its mailbox; in the place of what was lost it asks for
a reload. -/
def deliveryText : Mailbox.Delivery Event → String
  | .message event => eventText event
  | .missed count =>
    frameText Event.resyncChannel (Json.object [("skipped", .ofNat count)]).text

/-- The event of a frame; none for frames that nobody knows or that cannot be read. -/
def Frame.event? (frame : Frame) : Option Event :=
  match Moderation.Event.decode frame.event frame.data with
  | .ok event => event
  | .error _ => none

end Moderation.EventStream
