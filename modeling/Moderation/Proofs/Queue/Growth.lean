import Moderation.Proofs.Queue.History

/-!
# Versions grow, up to the greatest

A change moves the version of its reviewable on by one in the unsigned 64-bit numbers. The first
version is given with the reviewable and may be any of them, so the versions grow as long as the
changes do not come past the greatest number. A request that was prepared against an older copy is
refused unless the versions have gone all the way around since.
-/

namespace Moderation

namespace Queue

variable {q : Queue} {id : ReviewableId} {r : Reviewable} {op : Operation} {ops : List Operation}

/-- Each change to the reviewable that is accepted leaves a greater version than it found. -/
def Grows (q : Queue) (id : ReviewableId) : List Operation → Prop
  | [] => True
  | op :: rest =>
    ((q.acceptedChange id op).isSome = true → ∃ r s, q.items[id]? = some r ∧
      (q.after op).items[id]? = some s ∧ r.version < s.version) ∧ (q.after op).Grows id rest

theorem lt_add_one_iff {version : UInt64} :
    version < version + 1 ↔ version.toNat + 1 < 2 ^ 64 := by
  have hbound := version.toNat_lt
  rw [UInt64.lt_iff_toNat_lt, UInt64.toNat_add, UInt64.toNat_one]
  omega

theorem toNat_add_one {version : UInt64} (h : version.toNat + 1 < 2 ^ 64) :
    (version + 1).toNat = version.toNat + 1 := by
  rw [UInt64.toNat_add, UInt64.toNat_one, Nat.mod_eq_of_lt h]

theorem add_ofNat_eq_self_iff {version : UInt64} {count : Nat} :
    version + UInt64.ofNat count = version ↔ 2 ^ 64 ∣ count := by
  rw [UInt64.add_eq_left, ← UInt64.toNat_inj, UInt64.toNat_ofNat', Nat.dvd_iff_mod_eq_zero]
  rfl

theorem grows_iff (found : q.items[id]? = some r) (kept : NeverInserted id ops) :
    q.Grows id ops ↔ r.version.toNat + (q.accepted id ops).length < 2 ^ 64 := by
  induction ops generalizing q r with
  | nil => simpa [Grows, accepted] using r.version.toNat_lt
  | cons op rest ih =>
    obtain ⟨s, hs, hstep⟩ := item_step found kept.head
    have hrest := ih hs kept.tail
    cases hstep with
    | kept none same =>
      have hversion : s.version = r.version := by rw [same]
      rw [hversion] at hrest
      simpa [Grows, accepted, none] using hrest
    | changed change haccepted pending version next resolves =>
      have hgrown : (∃ r s, q.items[id]? = some r ∧ (q.after op).items[id]? = some s ∧
          r.version < s.version) ↔ r.version.toNat + 1 < 2 ^ 64 := by
        simp [found, hs, next, lt_add_one_iff]
      have hlength : (q.accepted id (op :: rest)).length =
          ((q.after op).accepted id rest).length + 1 := by
        simp [accepted, haccepted, Nat.add_comm]
      simp only [Grows, haccepted, Option.isSome_some, forall_const, hgrown, hrest, hlength]
      constructor
      · rintro ⟨hbound, hlater⟩
        rw [next, toNat_add_one hbound] at hlater
        omega
      · intro hbound
        have hfirst : r.version.toNat + 1 < 2 ^ 64 := by omega
        rw [next, toNat_add_one hfirst]
        omega

/-- A request that is granted was prepared against the version that the reviewable has. -/
theorem version_of_grants {change : Change} (found : q.items[id]? = some r)
    (requested : op.change? = some change) (own : change.id = id) (granted : q.grants op = true) :
    change.version = r.version := by
  have hrequest : ∀ new, op = .insert new → new.id ≠ id := by
    rintro new rfl
    cases requested
  obtain ⟨s, -, hstep⟩ := item_step found hrequest
  cases hstep with
  | kept none same => simp [acceptedChange_of_grants requested own granted] at none
  | changed other accepted pending version next resolves =>
    obtain rfl : change = other := by
      simpa [acceptedChange_of_grants requested own granted] using accepted
    exact version

/-- The versions of a reviewable grow in a run if and only if they do not come past the greatest
number. A request from a copy that is behind is refused, however far it is behind, except by whole
turns of the numbers. -/
theorem versions_grow_iff (q : Queue) (ops : List Operation) (id : ReviewableId) (r : Reviewable)
    (found : q.items[id]? = some r) (kept : NeverInserted id ops) :
    (q.Grows id ops ↔ r.version.toNat + (q.accepted id ops).length < 2 ^ 64) ∧
      ∀ before between rest copy op change, ops = before ++ (between ++ rest) →
        (q.run before).items[id]? = some copy →
        op.change? = some change → change.id = id → change.version = copy.version →
        ¬ 2 ^ 64 ∣ ((q.run before).accepted id between).length →
        (q.run (before ++ between)).grants op = false := by
  refine ⟨grows_iff found kept, ?_⟩
  rintro before between rest copy op change rfl hcopy hchange hid hversion hbehind
  have hbetween : NeverInserted id between :=
    fun new hop ↦ kept new (List.mem_append_right before (List.mem_append_left rest hop))
  obtain ⟨-, current, hcurrent, hmoved⟩ := versions_run hcopy hbetween
  rw [← run_append] at hcurrent
  rw [Bool.eq_false_iff]
  intro hgranted
  have hsame := version_of_grants hcurrent hchange hid hgranted
  rw [hmoved, hversion] at hsame
  exact hbehind (add_ofNat_eq_self_iff.mp hsame.symm)

/-- One change is left up to the greatest number, and it outdates the copy that it was made from. -/
theorem versions_grow_iff_up_to_greatest :
    let r := { Reviewable.plain 1 (some 10) with version := 0 - 2 }
    let q := ofSeed .optional [r]
    let edit := Operation.request .alice (.update 1 (0 - 2) ∅)
    let late := Operation.request .bob (.perform 1 "ignore" (0 - 2) ∅)
    q.Grows 1 [edit, late] ∧ (q.run [edit]).grants late = false := by
  intro r q edit late
  have found : q.items[(1 : ReviewableId)]? = some r := by rfl
  have kept : NeverInserted 1 [edit, late] := by simp [NeverInserted, edit, late]
  have hlength : (q.accepted 1 [edit, late]).length = 1 := by decide +kernel
  have hedited : (q.accepted 1 [edit]).length = 1 := by decide +kernel
  obtain ⟨hgrows, hrefused⟩ := versions_grow_iff q [edit, late] 1 r found kept
  refine ⟨hgrows.mpr (by rw [hlength]; decide), ?_⟩
  exact hrefused [] [edit] [late] r late ⟨1, 0 - 2, true⟩ rfl found rfl rfl rfl
    (by rw [run_nil, hedited]; decide)

/-- A reviewable that came in with the greatest version goes back to the least with a change. -/
theorem version_falls_after_greatest :
    let r := { Reviewable.plain 1 (some 10) with version := 0 - 1 }
    let q := ofSeed .optional [r]
    let edit := Operation.request .alice (.update 1 (0 - 1) ∅)
    (q.acceptedChange 1 edit).isSome = true ∧
      (q.items[(1 : ReviewableId)]?).map (·.version) = some (UInt64.ofNat (2 ^ 64 - 1)) ∧
      ((q.after edit).items[(1 : ReviewableId)]?).map (·.version) = some 0 ∧
      ¬ q.Grows 1 [edit] := by
  intro r q edit
  have found : q.items[(1 : ReviewableId)]? = some r := by rfl
  have haccepted : (q.acceptedChange 1 edit).isSome = true := by decide +kernel
  have hfallen : ((q.after edit).items[(1 : ReviewableId)]?).map (·.version) = some 0 := by
    decide +kernel
  refine ⟨haccepted, by rw [found]; decide, hfallen, ?_⟩
  rintro ⟨hgrows, -⟩
  obtain ⟨_, s, -, hs, hlt⟩ := hgrows haccepted
  have hleast : s.version = 0 := by simpa [hs] using hfallen
  rw [hleast] at hlt
  exact absurd hlt UInt64.not_lt_zero

end Queue

end Moderation
