import Mathlib.Algebra.Group.Nat.Defs
import Mathlib.Data.List.Nodup
import Moderation.Proofs.Queue.Run
import Moderation.Proofs.Specimen

/-!
# The history of a reviewable

No change to a reviewable is lost: along every run the accepted changes were prepared against
consecutive versions, each against the one that the change before it left. An action is the last of
them, and all that moves afterwards is the claim that the reviewable shows.
-/

namespace Moderation

namespace Queue

variable {q : Queue} {id : ReviewableId} {r : Reviewable} {op : Operation} {ops : List Operation}

/-- What one operation makes of a reviewable that it does not bring in. -/
inductive ItemStep (q : Queue) (id : ReviewableId) (op : Operation) (r s : Reviewable) : Prop where
  | kept (none : q.acceptedChange id op = none) (same : s = { r with claim := s.claim })
  | changed (change : Change) (accepted : q.acceptedChange id op = some change)
      (pending : r.isPending = true) (version : change.version = r.version)
      (next : s.version = r.version + 1) (resolves : s.isPending = !change.resolves)

theorem acceptedChange_of_not_grants (h : q.grants op = false) : q.acceptedChange id op = none := by
  simp [acceptedChange, h]

theorem acceptedChange_of_ne
    (h : ∀ change, op.change? = some change → change.id ≠ id) : q.acceptedChange id op = none := by
  unfold acceptedChange
  rw [Option.filter_eq_none_iff]
  intro change hchange
  simp [h change hchange]

theorem acceptedChange_of_grants {change : Change} (hchange : op.change? = some change)
    (hid : change.id = id) (hgrants : q.grants op = true) :
    q.acceptedChange id op = some change := by
  simp [acceptedChange, hchange, hid, hgrants]

theorem item_step (found : q.items[id]? = some r)
    (kept : ∀ new, op = .insert new → new.id ≠ id) :
    ∃ s, (q.after op).items[id]? = some s ∧ ItemStep q id op r s := by
  cases op with
  | setMode mode => exact ⟨r, found, .kept rfl rfl⟩
  | insert new =>
    exact ⟨r, by rw [after, items_insert, if_neg (kept new rfl), found], .kept rfl rfl⟩
  | request actor request =>
    rcases q.request_cases actor request with ⟨hrefused, hafter, -⟩ | ⟨hgranted, heffect⟩
    · exact ⟨r, by rw [hafter, found], .kept (acceptedChange_of_not_grants hrefused) rfl⟩
    · obtain ⟨s, hs, hitem, -⟩ := heffect.item found
      refine ⟨s, hs, ?_⟩
      cases hitem with
      | kept request other same => exact .kept (acceptedChange_of_ne other) same
      | edited version updates writable eq =>
        obtain ⟨category, fields, hframe⟩ := edited_frame r updates
        refine .changed ⟨id, version, false⟩ (acceptedChange_of_grants rfl rfl hgranted)
          writable.pending writable.version.symm ?_ ?_
        · rw [eq, hframe]
        · rw [eq, hframe]
          exact writable.pending
      | resolved action version data status writable granted eq =>
        refine .changed ⟨id, version, true⟩ (acceptedChange_of_grants rfl rfl hgranted)
          writable.pending writable.version.symm ?_ ?_
        · rw [eq]
          rfl
        · rw [eq]
          simp [Reviewable.isPending, resolved, outcome_isResolved granted]

/-- No operation of a run brings a reviewable in, or brings it in again. -/
def NeverInserted (id : ReviewableId) (ops : List Operation) : Prop :=
  ∀ new, .insert new ∈ ops → new.id ≠ id

theorem NeverInserted.head (h : NeverInserted id (op :: ops)) (new : Reviewable)
    (hop : op = .insert new) : new.id ≠ id := h new (hop ▸ List.mem_cons_self)

theorem NeverInserted.tail (h : NeverInserted id (op :: ops)) : NeverInserted id ops :=
  fun new hop ↦ h new (List.mem_cons_of_mem op hop)

/-- So many versions from one on, in the unsigned 64-bit numbers. -/
def versionsFrom (version : UInt64) (count : Nat) : List UInt64 :=
  (List.range count).map fun k ↦ version + UInt64.ofNat k

theorem add_ofNat_succ (version : UInt64) (k : Nat) :
    version + UInt64.ofNat (k + 1) = version + 1 + UInt64.ofNat k := by
  rw [UInt64.ofNat_add, UInt64.add_assoc, UInt64.add_comm (UInt64.ofNat k)]
  rfl

theorem versionsFrom_succ (version : UInt64) (count : Nat) :
    versionsFrom version (count + 1) = version :: versionsFrom (version + 1) count := by
  unfold versionsFrom
  rw [List.range_succ_eq_map, List.map_cons, List.map_map]
  congr 1
  · exact UInt64.add_zero version
  · exact List.map_congr_left fun k _ ↦ add_ofNat_succ version k

theorem nodup_versionsFrom (version : UInt64) {count : Nat} (h : count ≤ 2 ^ 64) :
    (versionsFrom version count).Nodup := by
  unfold versionsFrom
  refine List.Nodup.map_on ?_ List.nodup_range
  intro i hi j hj heq
  have hi : i < 2 ^ 64 := Nat.lt_of_lt_of_le (List.mem_range.mp hi) h
  have hj : j < 2 ^ 64 := Nat.lt_of_lt_of_le (List.mem_range.mp hj) h
  have hofNat : UInt64.ofNat i = UInt64.ofNat j := (UInt64.add_right_inj version).mp heq
  have htoNat := congrArg UInt64.toNat hofNat
  rwa [UInt64.toNat_ofNat_of_lt' hi, UInt64.toNat_ofNat_of_lt' hj] at htoNat

/-- A reviewable that is resolved is done with: nothing more is accepted for it, and only the claim
that it shows may change. -/
theorem resolved_run (found : q.items[id]? = some r) (hresolved : r.isPending = false)
    (kept : NeverInserted id ops) :
    q.accepted id ops = [] ∧
      ∃ s, (q.run ops).items[id]? = some s ∧ s = { r with claim := s.claim } := by
  induction ops generalizing q r with
  | nil => exact ⟨rfl, r, found, rfl⟩
  | cons op rest ih =>
    obtain ⟨s, hs, hstep⟩ := item_step found kept.head
    cases hstep with
    | changed change accepted pending version next resolves => simp [hresolved] at pending
    | kept none same =>
      have hs' : s.isPending = false := by rw [same]; exact hresolved
      obtain ⟨hrest, t, ht, hsame⟩ := ih hs hs' kept.tail
      refine ⟨by rw [accepted, none, hrest]; rfl, t, ht, ?_⟩
      rw [hsame, same]

theorem versions_run (found : q.items[id]? = some r)
    (kept : NeverInserted id ops) :
    (q.accepted id ops).map (·.version) = versionsFrom r.version (q.accepted id ops).length ∧
      ∃ s, (q.run ops).items[id]? = some s ∧
        s.version = r.version + UInt64.ofNat (q.accepted id ops).length := by
  induction ops generalizing q r with
  | nil => exact ⟨rfl, r, found, (UInt64.add_zero r.version).symm⟩
  | cons op rest ih =>
    obtain ⟨s, hs, hstep⟩ := item_step found kept.head
    obtain ⟨hversions, t, ht, hversion⟩ := ih hs kept.tail
    cases hstep with
    | kept none same =>
      have hsame : s.version = r.version := by rw [same]
      rw [hsame] at hversions hversion
      rw [accepted, none]
      exact ⟨hversions, t, ht, hversion⟩
    | changed change haccepted pending version next resolves =>
      rw [next] at hversions hversion
      rw [accepted, haccepted, Option.toList_some, List.singleton_append, List.map_cons,
        List.length_cons, versionsFrom_succ, hversions, version]
      refine ⟨rfl, t, ht, ?_⟩
      rw [hversion, add_ofNat_succ]

/-- An accepted action is the last change that is accepted, and the reviewable is resolved. -/
theorem resolving_run (found : q.items[id]? = some r)
    (kept : NeverInserted id ops) :
    (∀ change ∈ (q.accepted id ops).dropLast, change.resolves = false) ∧
      ((∃ change ∈ q.accepted id ops, change.resolves = true) →
        ∃ s, (q.run ops).items[id]? = some s ∧ s.isPending = false) := by
  induction ops generalizing q r with
  | nil => exact ⟨by simp [accepted], by simp [accepted]⟩
  | cons op rest ih =>
    obtain ⟨s, hs, hstep⟩ := item_step found kept.head
    obtain ⟨hlast, hresolving⟩ := ih hs kept.tail
    cases hstep with
    | kept none same =>
      rw [accepted, none]
      exact ⟨hlast, hresolving⟩
    | changed change haccepted pending version next resolves =>
      rw [accepted, haccepted, Option.toList_some, List.singleton_append, run_cons]
      cases hchange : change.resolves with
      | true =>
        have hresolved : s.isPending = false := by rw [resolves, hchange]; rfl
        obtain ⟨hnone, t, ht, hsame⟩ := resolved_run hs hresolved kept.tail
        refine ⟨by simp [hnone], fun _ ↦ ⟨t, ht, ?_⟩⟩
        rw [hsame]
        exact hresolved
      | false =>
        constructor
        · intro other hother
          cases hrest : (q.after op).accepted id rest with
          | nil => simp [hrest] at hother
          | cons first more =>
            rw [hrest, List.dropLast_cons_cons, ← hrest] at hother
            rcases List.mem_cons.mp hother with rfl | hother
            · exact hchange
            · exact hlast other hother
        · rintro ⟨other, hother, htrue⟩
          rcases List.mem_cons.mp hother with rfl | hother
          · simp [hchange] at htrue
          · exact hresolving ⟨other, hother, htrue⟩

/-- The linear history of a reviewable. -/
theorem version_history (q : Queue) (ops : List Operation) (id : ReviewableId) (r : Reviewable)
    (found : q.items[id]? = some r) (kept : NeverInserted id ops) :
    (q.accepted id ops).map (·.version) = versionsFrom r.version (q.accepted id ops).length ∧
      (∃ s, (q.run ops).items[id]? = some s ∧
        s.version = r.version + UInt64.ofNat (q.accepted id ops).length) ∧
      (∀ change ∈ (q.accepted id ops).dropLast, change.resolves = false) ∧
      (∀ before rest, ops = before ++ rest →
        (∃ change ∈ q.accepted id before, change.resolves = true) →
        ∃ s t, (q.run before).items[id]? = some s ∧ (q.run ops).items[id]? = some t ∧
          t = { s with claim := t.claim }) ∧
      ((q.accepted id ops).length < 2 ^ 64 → ((q.accepted id ops).map (·.version)).Nodup) := by
  obtain ⟨hversions, hversion⟩ := versions_run found kept
  refine ⟨hversions, hversion, (resolving_run found kept).1, ?_, ?_⟩
  · rintro before rest rfl hresolving
    have hbefore : NeverInserted id before :=
      fun new hop ↦ kept new (List.mem_append_left rest hop)
    obtain ⟨s, hs, hresolved⟩ := (resolving_run found hbefore).2 hresolving
    have hrest : NeverInserted id rest :=
      fun new hop ↦ kept new (List.mem_append_right before hop)
    obtain ⟨-, t, ht, hsame⟩ := resolved_run hs hresolved hrest
    exact ⟨s, t, hs, by rw [run_append, ht], hsame⟩
  · intro hlength
    rw [hversions]
    exact nodup_versionsFrom r.version (Nat.le_of_lt hlength)

/-- The versions go on past the greatest number, and a request that comes too late has no part in
them. -/
theorem version_history_past_the_greatest :
    let r := { Reviewable.plain 1 (some 10) with version := 0 - 1 }
    let q := ofSeed .optional [r]
    let ops := [.request .alice (.update 1 (0 - 1) ∅), .request .bob (.update 1 (0 - 1) ∅),
      .request .alice (.perform 1 "approve_post" 0 ∅), .request .bob (.perform 1 "ignore" 1 ∅)]
    q.items[(1 : ReviewableId)]? = some r ∧ NeverInserted 1 ops ∧
      (q.accepted 1 ops).map (·.version) = [0 - 1, 0] ∧
      ((q.accepted 1 ops).map (·.version)).Nodup := by
  intro r q ops
  have found : q.items[(1 : ReviewableId)]? = some r := by rfl
  have kept : NeverInserted 1 ops := by simp [NeverInserted, ops]
  have hlength : (q.accepted 1 ops).length = 2 := by decide +kernel
  obtain ⟨hversions, -, -, -, hnodup⟩ := version_history q ops 1 r found kept
  rw [hlength] at hversions hnodup
  have hwrapped : versionsFrom r.version 2 = [0 - 1, 0] := by decide
  exact ⟨found, kept, hversions.trans hwrapped, hnodup (by decide)⟩

end Queue

end Moderation
