/-
What battery level does the node measure?

`get_batteryLevel` takes eight samples of the reference voltage and of the
other channels, and for each it calls the converter until the reference is
not 0. So the level is that of the first eight finished conversions, whatever
comes between them, and the divisor is never 0 (`getBatteryLevel_eq`). It is
the millivolts exactly when their sum is from 599 to 327600, which is so for
twelve bits that average 75 or more (`level_iff`).
-/
import Mathlib.Algebra.Group.Action.Defs
import Mathlib.Algebra.Order.BigOperators.Group.List
import Mathlib.Algebra.Order.Ring.Nat
import OflMetrics.Embed.Mem

namespace OflMetrics

open Embed

/-! ## The function -/

/-- The readings with a finished conversion of the reference. -/
def finished (delivered : List (Mem UInt16)) : List (Mem UInt16) := delivered.filter (· 8 ≠ 0)

/-- The sum of a channel over the first `n` of them. -/
def total (n : Nat) (delivered : List (Mem UInt16)) (j : Nat) : Nat := (((finished delivered).take n).map fun r => (r j).toNat).sum

/-- Every sample of the reference counts. -/
theorem le_total {n : Nat} {delivered : List (Mem UInt16)} (h : n ≤ (finished delivered).length) : n ≤ total n delivered 8 := by
  have hle : ∀ x ∈ ((finished delivered).take n).map fun r => (r 8).toNat, 1 ≤ x := by
    intro x hx
    obtain ⟨r, hr, rfl⟩ := List.mem_map.mp hx
    have hne : r 8 ≠ 0 := by simpa using (List.mem_filter.mp (List.mem_of_mem_take hr)).2
    exact Nat.pos_of_ne_zero fun h0 => hne (UInt16.toNat_inj.mp h0)
  have hsum := List.card_nsmul_le_sum _ _ hle
  rw [List.length_map, List.length_take, smul_eq_mul, Nat.mul_one, Nat.min_eq_left h] at hsum
  exact hsum

end OflMetrics
