import Moderation.Proofs.Queue.Effect
import Moderation.Rehearsal.Run
import Moderation.Wire.Script

/-!
# What is read from a script

An operation does what its document names, and one that cannot be read keeps its place and its name
and does nothing. A reply stays with the endpoint that it is listed under: it answers the requests
of that endpoint and no others.
-/

namespace Moderation

/-- The endpoint that a request goes to. -/
def Request.endpoint : Request → String
  | .perform .. => "perform"
  | .claim .. => "claim"
  | .release .. => "release"
  | .fetch _ => "fetch"
  | .list => "list"
  | .update .. => "update"

namespace Rehearsal

open Decoder

variable {α : Type} {now : Time} {levels : Nat} {d : Document} {name : String}

/-- All that may be read is an operation of this name. -/
def Names (name : String) (reading : Except DecodeFault Op) : Prop :=
  ∀ op, reading = .ok op → op.name = name

theorem names_pure {op : Op} (h : op.name = name) : Names name (pure op) := by
  intro other hother
  cases hother
  exact h

theorem names_bind {first : Except DecodeFault α} {rest : α → Except DecodeFault Op}
    (h : ∀ a, Names name (rest a)) : Names name (first >>= rest) := by
  intro op hop
  obtain ⟨a, -, hrest⟩ := bind_eq_ok_iff.mp hop
  exact h a op hrest

theorem name_decodePlain {op : Op} (h : Op.decodePlain now levels d = .ok op) :
    required "do" string 1 d = .ok op.name := by
  obtain ⟨name, hname, hrest⟩ := bind_eq_ok_iff.mp h
  suffices hnames : Names name _ by
    rw [hnames op hrest]
    exact hname
  -- One case for each name, and two where it matters whether a reviewable comes with it.
  split
  all_goals
    try split
    all_goals
      repeat (apply names_bind; intro _)
      first
        | exact names_pure rfl
        | exact nofun

/-- What is read is what the document names. -/
theorem name_decode {op : Op} (h : Op.decode now levels d = .ok op) :
    required "do" string 1 d = .ok op.name := by
  cases levels with
  | zero => nomatch h
  | succ n =>
    obtain ⟨name, hname, hrest⟩ := bind_eq_ok_iff.mp h
    split at hrest
    · obtain ⟨endpoint, -, hreply⟩ := bind_eq_ok_iff.mp hrest
      obtain ⟨reply, -, hop⟩ := bind_eq_ok_iff.mp hreply
      cases hop
      exact hname
    · exact name_decodePlain hrest

/-- The name in a document, empty if there is none. -/
def nameIn (d : Document) : String := ((required "do" string 1 d).toOption).getD ""

theorem name_ofDocument (now : Time) (levels : Nat) (d : Document) :
    (Op.ofDocument now levels d).name = nameIn d := by
  unfold Op.ofDocument Op.orUnreadable
  split
  · rename_i hop
    rw [nameIn, name_decode hop]
    rfl
  · rfl

/-- What is to be done meanwhile is all there, in order, though some of it may be unreadable. -/
theorem names_meanwhileOf (now : Time) (levels : Nat) (d : Document) :
    (meanwhileOf now levels d).map Op.name = (d.itemsAt "during").map nameIn := by
  rw [meanwhileOf, List.map_map]
  exact List.map_congr_left fun item _ ↦ name_ofDocument now levels item

/-- The endpoint whose requests a reply answers. -/
def Reply.endpoint : Reply → String
  | .perform .. => "perform"
  | .claim .. => "claim"
  | .release .. => "release"
  | .fetch .. => "fetch"
  | .list .. => "list"
  | .update .. => "update"
  | .confirm .. => "prompt"

/-- What is done before the answer is given. -/
def Reply.meanwhile : Reply → List Op
  | .perform ops _ | .claim ops _ | .release ops _ | .fetch ops _ | .list ops _ | .update ops _
  | .confirm ops _ => ops

theorem endpoint_decode {endpoint : String} {ops : List Op} {reply : Reply}
    (h : Reply.decode now endpoint ops levels d = .ok reply) :
    reply.endpoint = endpoint ∧ reply.meanwhile = ops := by
  unfold Reply.decode at h
  split at h
  case h_7 =>
    split at h
    · cases h
      exact ⟨rfl, rfl⟩
    · obtain ⟨answer, -, hreply⟩ := bind_eq_ok_iff.mp h
      cases hreply
      exact ⟨rfl, rfl⟩
  case h_8 => nomatch h
  all_goals
    obtain ⟨answer, -, hreply⟩ := bind_eq_ok_iff.mp h
    cases hreply
    exact ⟨rfl, rfl⟩

theorem exists_of_mem_mapM {ε β : Type} {f : α → Except ε β} {xs : List α} {ys : List β}
    (h : xs.mapM f = .ok ys) {y : β} (hy : y ∈ ys) : ∃ x ∈ xs, f x = .ok y := by
  induction xs generalizing ys with
  | nil =>
    cases h
    nomatch hy
  | cons x rest ih =>
    rw [List.mapM_cons] at h
    obtain ⟨first, hfirst, hrest⟩ := bind_eq_ok_iff.mp h
    obtain ⟨others, hothers, hall⟩ := bind_eq_ok_iff.mp hrest
    cases hall
    rcases List.mem_cons.mp hy with rfl | hlater
    · exact ⟨x, List.mem_cons_self, hfirst⟩
    · obtain ⟨other, hother, hread⟩ := ih hothers hlater
      exact ⟨other, List.mem_cons_of_mem x hother, hread⟩

/-- All replies that are read stood in the list of their endpoint. -/
theorem endpoint_decodeReplies {replies : List Reply}
    (h : decodeReplies now levels d = .ok replies) {reply : Reply} (hreply : reply ∈ replies) :
    ∃ queue item, (reply.endpoint, queue) ∈ d.namedMembers ∧ item ∈ queue.items ∧
      reply.meanwhile = meanwhileOf now levels item := by
  obtain ⟨lists, hlists, hflat⟩ := bind_eq_ok_iff.mp h
  cases hflat
  obtain ⟨own, hown, hmem⟩ := List.mem_flatten.mp hreply
  obtain ⟨⟨endpoint, queue⟩, hqueue, hread⟩ := exists_of_mem_mapM hlists hown
  obtain ⟨item, hitem, hdecode⟩ := exists_of_mem_mapM hread hmem
  obtain ⟨rfl, hmeanwhile⟩ := endpoint_decode hdecode
  exact ⟨queue, item, hqueue, hitem, hmeanwhile⟩

theorem isSome_scriptedReply (request : Request) (reply : Reply) :
    (scriptedReply request reply).isSome = (reply.endpoint == request.endpoint) := by
  cases request <;> cases reply <;> rfl

section Taking

variable {β : Type} {p q : α → Bool}

theorem findSome?_eq_head?_filter {select : α → Option β} (h : ∀ a, (select a).isSome = p a)
    (xs : List α) : xs.findSome? select = (xs.filter p).head?.bind select := by
  induction xs with
  | nil => rfl
  | cons a rest ih =>
    have ha := h a
    cases hp : p a with
    | true =>
      rw [List.filter_cons_of_pos hp, List.findSome?_cons_of_isSome (ha.trans hp)]
      rfl
    | false =>
      have hnone : select a = none := by simpa [hp] using ha
      rw [List.filter_cons_of_neg (by simp [hp]), List.findSome?_cons, hnone]
      exact ih

theorem filter_eraseP_of_disjoint (h : ∀ a, p a = true → q a = false) (xs : List α) :
    (xs.eraseP p).filter q = xs.filter q := by
  induction xs with
  | nil => rfl
  | cons a rest ih =>
    cases hp : p a with
    | true => rw [List.eraseP_cons_of_pos hp, List.filter_cons_of_neg (by simp [h a hp])]
    | false => rw [List.eraseP_cons_of_neg (by simp [hp]), List.filter_cons, List.filter_cons, ih]

theorem filter_eraseP_self (xs : List α) : (xs.eraseP p).filter p = (xs.filter p).tail := by
  induction xs with
  | nil => rfl
  | cons a rest ih =>
    cases hp : p a with
    | true => rw [List.eraseP_cons_of_pos hp, List.filter_cons_of_pos hp, List.tail_cons]
    | false =>
      have hneg : ¬p a = true := by simp [hp]
      rw [List.eraseP_cons_of_neg hneg, List.filter_cons_of_neg hneg,
        List.filter_cons_of_neg hneg, ih]

end Taking

/-- A request takes the replies of its endpoint one after another, and no others. -/
theorem takeReply_scripted (w : State) (request : Request) :
    let own := w.replies.filter (·.endpoint == request.endpoint)
    let taken := w.takeReply (scriptedReply request)
    taken.1 = own.head?.bind (scriptedReply request) ∧
      taken.2.replies.filter (·.endpoint == request.endpoint) = own.tail ∧
      ∀ endpoint, endpoint ≠ request.endpoint →
        taken.2.replies.filter (·.endpoint == endpoint) =
          w.replies.filter (·.endpoint == endpoint) := by
  simp only [State.takeReply, isSome_scriptedReply]
  refine ⟨?_, filter_eraseP_self w.replies, fun endpoint hother ↦ ?_⟩
  · exact findSome?_eq_head?_filter (isSome_scriptedReply request) w.replies
  · refine filter_eraseP_of_disjoint (fun reply hown ↦ ?_) w.replies
    rw [beq_iff_eq.mp hown]
    exact beq_false_of_ne hother.symm

end Rehearsal

end Moderation
