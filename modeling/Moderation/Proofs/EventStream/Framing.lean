import Moderation.Proofs.EventStream

/-!
# Where frames end

Some bytes divide into frames in one way: each frame ends at the first place where an end of a frame
stands. This says nothing of how the bytes arrive, so a reader that is fed with them finds the same
frames and keeps the same bytes however they are cut.
-/

namespace Moderation.EventStream

variable {bytes frame rest left : List UInt8} {frames : List (List UInt8)}

/-- What ends a frame: the end of its last line and an empty line that ends likewise. -/
def frameEnds : List (List UInt8) := [[10, 10], [13, 10, 13, 10]]

/-- The bytes begin with the end of a frame. -/
def AtEnd (bytes : List UInt8) : Prop := ∃ mark ∈ frameEnds, mark <+: bytes

theorem atEnd_iff : AtEnd bytes ↔
    (∃ rest, bytes = 10 :: 10 :: rest) ∨ ∃ rest, bytes = 13 :: 10 :: 13 :: 10 :: rest := by
  simp only [AtEnd, frameEnds, List.mem_cons, List.not_mem_nil, or_false, exists_eq_or_imp,
    exists_eq_left, List.prefix_iff_exists_eq_append, List.cons_append, List.nil_append]

theorem not_atEnd_nil : ¬ AtEnd [] := by simp [atEnd_iff]

/-- An end of one kind is no beginning of one of the other. -/
theorem eq_of_frameEnds {mark other after : List UInt8} (hmark : mark ∈ frameEnds)
    (hother : other ∈ frameEnds) (h : mark ++ rest = other ++ after) :
    mark = other ∧ rest = after := by
  simp only [frameEnds, List.mem_cons, List.not_mem_nil, or_false] at hmark hother
  obtain rfl | rfl := hmark <;> obtain rfl | rfl := hother <;> simp_all

/-- Where no frame ends, the first byte belongs to the frame of what follows. -/
theorem splitFrame?_of_not_atEnd {b : UInt8} (h : ¬ AtEnd (b :: bytes)) :
    splitFrame? (b :: bytes) =
      (splitFrame? bytes).map fun (frame, left) ↦ (b :: frame, left) := by
  rw [atEnd_iff, not_or] at h
  refine splitFrame?_cons ?_ ?_
  · rintro rest rfl rfl
    exact h.1 ⟨rest, rfl⟩
  · rintro rest rfl rfl
    exact h.2 ⟨rest, rfl⟩

theorem splitFrame?_of_atEnd (h : AtEnd bytes) :
    ∃ mark ∈ frameEnds, ∃ rest, bytes = mark ++ rest ∧ splitFrame? bytes = some ([], rest) := by
  obtain ⟨rest, rfl⟩ | ⟨rest, rfl⟩ := atEnd_iff.mp h
  · exact ⟨[10, 10], by simp [frameEnds], rest, rfl, rfl⟩
  · exact ⟨[13, 10, 13, 10], by simp [frameEnds], rest, rfl, rfl⟩

/-- No end of a frame stands in the bytes. -/
def IsOpen (bytes : List UInt8) : Prop := ∀ before after, bytes = before ++ after → ¬ AtEnd after

/-- The bytes begin with a frame and its end, and no end stands before that one. -/
structure BeginsWith (bytes frame mark rest : List UInt8) : Prop where
  mark_mem : mark ∈ frameEnds
  bytes_eq : bytes = frame ++ mark ++ rest
  first : ∀ before after, bytes = before ++ after → AtEnd after → frame.length ≤ before.length

theorem IsOpen.cons {b : UInt8} (h : IsOpen bytes) (hb : ¬ AtEnd (b :: bytes)) :
    IsOpen (b :: bytes) := by
  intro before after heq
  rcases List.cons_eq_append_iff.mp heq with ⟨-, rfl⟩ | ⟨before', -, heq'⟩
  · exact hb
  · exact h before' after heq'

theorem BeginsWith.cons {b : UInt8} {mark : List UInt8} (h : BeginsWith bytes frame mark rest)
    (hb : ¬ AtEnd (b :: bytes)) : BeginsWith (b :: bytes) (b :: frame) mark rest where
  mark_mem := h.mark_mem
  bytes_eq := by rw [h.bytes_eq, List.cons_append, List.cons_append]
  first := by
    intro before after heq hafter
    rcases List.cons_eq_append_iff.mp heq with ⟨-, rfl⟩ | ⟨before', rfl, heq'⟩
    · exact absurd hafter hb
    · exact Nat.succ_le_succ (h.first before' after heq' hafter)

/-- The reader of frames finds the first end, or none where there is none. -/
theorem splitFrame?_spec (bytes : List UInt8) :
    (splitFrame? bytes = none ∧ IsOpen bytes) ∨
      ∃ frame mark rest, splitFrame? bytes = some (frame, rest) ∧
        BeginsWith bytes frame mark rest := by
  induction bytes with
  | nil =>
    refine .inl ⟨rfl, fun before after heq ↦ ?_⟩
    rw [(List.append_eq_nil_iff.mp heq.symm).2]
    exact not_atEnd_nil
  | cons b bytes ih =>
    -- Where no end stands at the first byte, the first end is that of the bytes behind it.
    by_cases hb : AtEnd (b :: bytes)
    · obtain ⟨mark, hmark, rest, heq, hsplit⟩ := splitFrame?_of_atEnd hb
      exact .inr ⟨[], mark, rest, hsplit, hmark, heq, fun _ _ _ _ ↦ Nat.zero_le _⟩
    · rw [splitFrame?_of_not_atEnd hb]
      rcases ih with ⟨hnone, hopen⟩ | ⟨frame, mark, rest, hsome, hbegins⟩
      · exact .inl ⟨by rw [hnone]; rfl, hopen.cons hb⟩
      · exact .inr ⟨b :: frame, mark, rest, by rw [hsome]; rfl, hbegins.cons hb⟩

theorem BeginsWith.not_isOpen {mark : List UInt8} (h : BeginsWith bytes frame mark rest) :
    ¬ IsOpen bytes := fun hopen ↦
  hopen frame (mark ++ rest) (by rw [h.bytes_eq, List.append_assoc])
    ⟨mark, h.mark_mem, List.prefix_append mark rest⟩

/-- There is one first end. -/
theorem BeginsWith.unique {mark other frame' rest' : List UInt8}
    (h : BeginsWith bytes frame mark rest) (h' : BeginsWith bytes frame' other rest') :
    frame = frame' ∧ rest = rest' := by
  -- Neither end stands before the other, so both frames have the same length.
  have hle := h.first frame' (other ++ rest') (by rw [h'.bytes_eq, List.append_assoc])
    ⟨other, h'.mark_mem, List.prefix_append other rest'⟩
  have hge := h'.first frame (mark ++ rest) (by rw [h.bytes_eq, List.append_assoc])
    ⟨mark, h.mark_mem, List.prefix_append mark rest⟩
  have heq : frame ++ (mark ++ rest) = frame' ++ (other ++ rest') := by
    rw [← List.append_assoc, ← h.bytes_eq, h'.bytes_eq, List.append_assoc]
  obtain ⟨hframe, hafter⟩ := List.append_inj heq (Nat.le_antisymm hle hge)
  exact ⟨hframe, (eq_of_frameEnds h.mark_mem h'.mark_mem hafter).2⟩

/-- The frames of some bytes, and the bytes of the frame that is not complete. -/
inductive Divides : List UInt8 → List (List UInt8) → List UInt8 → Prop
  | left {bytes : List UInt8} (h : IsOpen bytes) : Divides bytes [] bytes
  | frame {bytes frame mark rest left : List UInt8} {frames : List (List UInt8)}
    (h : BeginsWith bytes frame mark rest) (more : Divides rest frames left) :
    Divides bytes (frame :: frames) left

theorem divides_splitFrames (bytes : List UInt8) :
    Divides bytes (splitFrames bytes).1 (splitFrames bytes).2 := by
  fun_induction splitFrames bytes with
  | case1 bytes frame rest hsplit frames left hrest ih =>
    rw [hrest] at ih
    rcases splitFrame?_spec bytes with ⟨hnone, -⟩ | ⟨frame', mark, rest', hsome, hbegins⟩
    · rw [hnone] at hsplit
      cases hsplit
    · obtain ⟨rfl, rfl⟩ := Prod.mk.inj (Option.some.inj (hsome.symm.trans hsplit))
      exact .frame hbegins ih
  | case2 bytes hsplit =>
    rcases splitFrame?_spec bytes with ⟨-, hopen⟩ | ⟨frame, mark, rest, hsome, -⟩
    · exact .left hopen
    · rw [hsome] at hsplit
      cases hsplit

/-- Bytes divide in one way. -/
theorem Divides.unique {frames' : List (List UInt8)} {left' : List UInt8}
    (h : Divides bytes frames left) (h' : Divides bytes frames' left') :
    frames = frames' ∧ left = left' := by
  induction h generalizing frames' with
  | left hopen =>
    cases h' with
    | left => exact ⟨rfl, rfl⟩
    | frame hbegins => exact absurd hopen hbegins.not_isOpen
  | frame hbegins _ ih =>
    cases h' with
    | left hopen => exact absurd hopen hbegins.not_isOpen
    | frame hbegins' more =>
      obtain ⟨rfl, rfl⟩ := hbegins.unique hbegins'
      obtain ⟨rfl, rfl⟩ := ih more
      exact ⟨rfl, rfl⟩

/-- However some bytes are cut, a reader finds the frames that they divide into and keeps the bytes
of the frame that is not complete. -/
theorem pushAll_empty (chunks : List (List UInt8)) :
    ∃ frames left, Divides chunks.flatten frames left ∧
      Decoder.empty.pushAll chunks =
        (frames.filterMap fun frame ↦ frameOf? (Utf8.decodeLossy frame), ⟨left⟩) :=
  ⟨_, _, divides_splitFrames chunks.flatten, Decoder.pushAll_eq Decoder.empty rfl chunks⟩

/-- Two ways of cutting the same bytes make no difference to what a reader finds and what it keeps:
both are what the bytes divide into. -/
theorem pushAll_eq_of_flatten_eq {chunks others : List (List UInt8)}
    (same : chunks.flatten = others.flatten) :
    Decoder.empty.pushAll chunks = Decoder.empty.pushAll others ∧
      ∃ frames left, Divides chunks.flatten frames left ∧
        Decoder.empty.pushAll chunks =
          (frames.filterMap fun frame ↦ frameOf? (Utf8.decodeLossy frame), ⟨left⟩) := by
  obtain ⟨frames, left, hdivides, hpush⟩ := pushAll_empty chunks
  obtain ⟨frames', left', hdivides', hpush'⟩ := pushAll_empty others
  rw [← same] at hdivides'
  obtain ⟨rfl, rfl⟩ := hdivides.unique hdivides'
  exact ⟨hpush.trans hpush'.symm, frames, left, hdivides, hpush⟩

/-- The bytes may come one by one, or be cut within the end of a frame. -/
theorem pushAll_eq_of_single_bytes :
    let bytes := Utf8.encode "event: x\r\ndata: a\r\n\r\ndata: b\n\nda"
    let singles := bytes.map fun b ↦ [b]
    let others := [bytes.take 20, [], bytes.drop 20]
    singles.flatten = others.flatten ∧ bytes[19]? = some 13 ∧ bytes[20]? = some 10 ∧
      Decoder.empty.pushAll singles = Decoder.empty.pushAll others := by
  intro bytes singles others
  have hsame : singles.flatten = others.flatten := by decide +kernel
  have hcut : bytes[19]? = some 13 ∧ bytes[20]? = some 10 := by decide +kernel
  exact ⟨hsame, hcut.1, hcut.2, (pushAll_eq_of_flatten_eq hsame).1⟩

end Moderation.EventStream
