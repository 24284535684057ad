import Moderation.Proofs.Number.Magnitude

/-!
# What shortest decimals stand for

A shortest decimal lies where reals round to its double, so it exceeds the double by no more than
half a unit in the last place.
-/

namespace Moderation.Binary64

variable {x : Binary64} {d : Decimal}

/-- The real numbers that round to `x` go no further than half a unit past it. -/
theorem value_le_of_roundsFrom (h : x.roundsFrom d = true) :
    d.value ≤ (x.mantissa + 1 / 2) * 2 ^ x.exponent := by
  have hquarters : ((4 * x.mantissa + 2 : Nat) : ℚ) * 2 ^ (x.exponent - 2) =
      (x.mantissa + 1 / 2) * 2 ^ x.exponent := by
    rw [zpow_sub₀ two_ne_zero]
    push_cast
    ring
  rw [← hquarters]
  unfold roundsFrom at h
  dsimp only at h
  split at h
  · exact Decimal.leBinary_iff.mp (Bool.and_eq_true_iff.mp h).2
  · have hbelow := (Bool.and_eq_true_iff.mp h).2
    rw [Bool.not_eq_true', ← Bool.not_eq_true, Decimal.geBinary_iff, not_le] at hbelow
    exact hbelow.le

theorem roundsFrom_of_onGrid? {count : Nat} (h : x.onGrid? count = some d) :
    x.roundsFrom d = true := by
  unfold onGrid? at h
  dsimp only at h
  split at h
  · rename_i hlower hupper
    split at h
    · obtain rfl := Option.some.inj h
      exact hupper
    · obtain rfl := Option.some.inj h
      exact hlower
  · rename_i hlower _
    obtain rfl := Option.some.inj h
    exact hlower
  · rename_i _ hupper
    obtain rfl := Option.some.inj h
    exact hupper
  · cases h

theorem value_shortestFrom_le (x : Binary64) (fuel count : Nat) :
    (x.shortestFrom fuel count).value ≤ (x.mantissa + 1 / 2) * 2 ^ x.exponent := by
  induction fuel generalizing count with
  | zero =>
    have hzero : (x.shortestFrom 0 count).value = 0 := zero_mul _
    rw [hzero]
    positivity
  | succ fuel ih =>
    unfold shortestFrom
    cases hgrid : x.onGrid? count with
    | none => exact ih (count + 1)
    | some d => exact value_le_of_roundsFrom (roundsFrom_of_onGrid? hgrid)

theorem value_shortest_le (x : Binary64) :
    x.shortest.value ≤ (x.mantissa + 1 / 2) * 2 ^ x.exponent := by
  unfold shortest
  split
  · have hzero : (⟨0, 0⟩ : Decimal).value = 0 := zero_mul _
    rw [hzero]
    positivity
  · rw [Decimal.value_trim]
    exact x.value_shortestFrom_le 17 1

end Moderation.Binary64
