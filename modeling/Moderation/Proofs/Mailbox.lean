import Moderation.Mailbox

/-!
# What comes into a mailbox

Messages stand in a mailbox in the order in which they came. If there is no room for all of them
the ones that came first are gone, and their number is kept.
-/

namespace Moderation.Mailbox

variable {α : Type} {box between : Mailbox α} {messages : List α}

/-- How a mailbox is after some messages came in, one after another: they wait behind what waited
before, and only what stands first may be lost, when the mailbox is full. -/
structure Receives (box : Mailbox α) (messages : List α) (after : Mailbox α) : Prop where
  capacity : after.capacity = box.capacity
  waiting : ∃ lost, box.waiting ++ messages = lost ++ after.waiting ∧
    after.missed = box.missed + lost.length ∧
      (lost ≠ [] → after.waiting.length = box.capacity)

/-- One message more. What it drives out stood right behind what was lost before. -/
theorem Receives.post (h : box.Receives messages between) (message : α) :
    box.Receives (messages ++ [message]) (between.post message) := by
  obtain ⟨hcapacity, lost, hwaiting, hmissed, hfull⟩ := h
  let all := between.waiting ++ [message]
  let excess := all.length - between.capacity
  have hlength : (all.take excess).length = excess :=
    List.length_take_of_le (Nat.sub_le _ _)
  refine ⟨hcapacity, lost ++ all.take excess, ?_, ?_, fun hsome ↦ ?_⟩
  · calc box.waiting ++ (messages ++ [message])
      _ = lost ++ all := by rw [← List.append_assoc, hwaiting, List.append_assoc]
      _ = lost ++ (all.take excess ++ all.drop excess) := by rw [List.take_append_drop]
      _ = lost ++ all.take excess ++ (between.post message).waiting :=
        (List.append_assoc _ _ _).symm
  · rw [List.length_append, hlength, ← Nat.add_assoc, ← hmissed]
    rfl
  · have hall : all.length = between.waiting.length + 1 := List.length_append
    have hexcess : excess = all.length - between.capacity := rfl
    -- A mailbox that has lost something is full, so the new message drives out another one.
    have hone : 0 < excess := by
      apply Nat.pos_of_ne_zero
      intro hnone
      rw [hnone, List.take_zero, List.append_nil] at hsome
      have hbefore := hfull hsome
      omega
    change (all.drop excess).length = box.capacity
    rw [List.length_drop]
    omega

/-- Each message of a row, one after another. -/
theorem Receives.postAll (h : box.Receives messages between) (more : List α) :
    box.Receives (messages ++ more) (between.postAll more) := by
  induction more generalizing messages between with
  | nil =>
    rw [List.append_nil]
    exact h
  | cons message more ih =>
    rw [List.append_cons]
    exact ih (h.post message)

end Moderation.Mailbox
