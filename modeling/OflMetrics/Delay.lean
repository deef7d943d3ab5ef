/-
The busy loops of `ofllibs/utils.c`.

`delayMicroseconds` counts in 16 bits up to a bound that is computed as an
`int`. The bound does not wrap, but from 21851 microseconds on it is more than
the counter can reach, and the loop never ends (`not_delays`); below that it
makes the turns the bound says (`endsOnTime_iff`). `delay`, whose counter
is as wide as its bound, ends for every argument (`delay_ends`).
-/
import OflMetrics.Embed.While

namespace OflMetrics

open Embed

/-- `CYCLES_PER_US`. -/
def CYCLES_PER_US : Int32 := 3

/-- `CORRECTION`. -/
def CORRECTION : Int32 := 5

/-- The bound of `delayMicroseconds`. -/
def delayBound (d : UInt16) : Int32 := (d.toUInt32.toInt32 - CORRECTION) * CYCLES_PER_US

/-- The counter is below the bound, as an `int`. -/
def BelowBound (d i : UInt16) : Prop := i.toUInt32.toInt32 < delayBound d

instance (d : UInt16) : DecidablePred (BelowBound d) := fun i =>
  inferInstanceAs (Decidable (i.toUInt32.toInt32 < delayBound d))

/-- `delayMicroseconds`, testing its condition `fuel` times at most: how often
it has run its instruction when it returns. -/
def delayMicroseconds (d : UInt16) (fuel : Nat) : Option Nat :=
  (whileLoop (BelowBound d) (· + 1) fuel 0).map Prod.fst

/-- `delay`, in the same way. -/
def delay (d : Int32) (fuel : Nat) : Option Nat := (whileLoop (· < d) (· + 1) fuel 0).map Prod.fst

/-- `delayMicroseconds` returns after `n` turns. -/
def Delays (d : UInt16) (n : Nat) : Prop := ∃ fuel, delayMicroseconds d fuel = some n

/-- It ends after exactly `max 0 ((d - 5) * 3)` turns, over the integers. -/
def EndsOnTime (d : UInt16) : Prop := ∀ n, Delays d n ↔ n = (max 0 (((d.toNat : Int) - 5) * 3)).toNat

theorem delays_iff {d : UInt16} {n : Nat} : Delays d n ↔ ∃ t, Ends (BelowBound d) (· + 1) 0 n t := by
  constructor
  · rintro ⟨fuel, hfuel⟩
    obtain ⟨⟨m, t⟩, hloop, heq⟩ := Option.map_eq_some_iff.mp hfuel
    cases heq
    exact ⟨t, fuel, hloop⟩
  · rintro ⟨t, fuel, hloop⟩
    exact ⟨fuel, by rw [delayMicroseconds, hloop]; rfl⟩

/-! ## The bound -/

/-- A 16-bit number keeps its value as an `int`. -/
theorem toInt_promoted (d : UInt16) : d.toUInt32.toInt32.toInt = d.toNat := by
  have hlt := d.toNat_lt
  have hread : d.toUInt32.toInt32.toInt = (d.toUInt32.toNat : Int).bmod (2 ^ 32) :=
    BitVec.toInt_eq_toNat_bmod d.toUInt32.toBitVec
  rw [hread, UInt16.toNat_toUInt32, Int.bmod_eq_of_le (by omega) (by omega)]

/-- The bound is computed without a wrap. -/
theorem toInt_delayBound (d : UInt16) : (delayBound d).toInt = ((d.toNat : Int) - 5) * 3 := by
  have hlt := d.toNat_lt
  have hcorrection : CORRECTION.toInt = 5 := rfl
  have hcycles : CYCLES_PER_US.toInt = 3 := rfl
  have hsub : (d.toUInt32.toInt32 - CORRECTION).toInt = (d.toNat : Int) - 5 := by
    rw [Int32.toInt_sub, toInt_promoted, hcorrection, Int.bmod_eq_of_le (by omega) (by omega)]
  rw [delayBound, Int32.toInt_mul, hsub, hcycles, Int.bmod_eq_of_le (by omega) (by omega)]

theorem belowBound_iff (d i : UInt16) : BelowBound d i ↔ (i.toNat : Int) < ((d.toNat : Int) - 5) * 3 := by
  rw [BelowBound, Int32.lt_iff_toInt_lt, toInt_promoted, toInt_delayBound]

/-! ## The loops -/

/-- A bound the counter can reach is reached. -/
theorem delays_of_le {d : UInt16} (h : d.toNat ≤ 21850) : Delays d (max 0 (((d.toNat : Int) - 5) * 3)).toNat := by
  have hcount : ∀ i : UInt16, (i.toNat : Int) < ((d.toNat : Int) - 5) * 3 → ((i + 1).toNat : Int) = i.toNat + 1 := by
    intro i hi
    rw [UInt16.toNat_add, show (1 : UInt16).toNat = 1 from rfl, Nat.mod_eq_of_lt (by omega)]
    rfl
  obtain ⟨t, hends⟩ := Ends.of_counter (fun i : UInt16 => (i.toNat : Int)) (belowBound_iff d) hcount 0
  have hturns : (((d.toNat : Int) - 5) * 3 - (0 : UInt16).toNat).toNat = (max 0 (((d.toNat : Int) - 5) * 3)).toNat := by
    rw [show (0 : UInt16).toNat = 0 from rfl]
    omega
  rw [← hturns]
  exact delays_iff.mpr ⟨t, hends⟩

/-- Any other is above every value of the counter. -/
theorem not_delays {d : UInt16} (h : 21850 < d.toNat) (n : Nat) : ¬ Delays d n := by
  intro hdelays
  obtain ⟨t, hends⟩ := delays_iff.mp hdelays
  have hcond : ∀ i : UInt16, True → BelowBound d i := by
    intro i _
    have hlt := i.toNat_lt
    rw [belowBound_iff]
    omega
  exact not_ends hcond (fun _ _ => trivial) trivial hends

theorem Delays.unique {d : UInt16} {n n' : Nat} (h : Delays d n) (h' : Delays d n') : n = n' := by
  obtain ⟨t, hends⟩ := delays_iff.mp h
  obtain ⟨t', hends'⟩ := delays_iff.mp h'
  exact (hends.unique hends').1

/-- **When a delay ends on time**: when it is 21850 microseconds at most. -/
theorem endsOnTime_iff (d : UInt16) : EndsOnTime d ↔ d.toNat ≤ 21850 := by
  constructor
  · intro h
    by_contra hlong
    exact not_delays (Nat.lt_of_not_le hlong) _ ((h _).mpr rfl)
  · intro h n
    constructor
    · intro hn
      exact hn.unique (delays_of_le h)
    · rintro rfl
      exact delays_of_le h

/-- 21851 microseconds never end. -/
theorem delay_endless : ¬ EndsOnTime 21851 :=
  fun h => not_delays (by decide) _ ((h _).mpr rfl)

/-- `delay` ends for every argument. -/
theorem delay_ends (d : Int32) : ∃ fuel, delay d fuel = some d.toInt.toNat := by
  have hcount : ∀ j : Int32, j.toInt < d.toInt → (j + 1).toInt = j.toInt + 1 := by
    intro j hj
    have hlo := j.le_toInt
    have hhi := d.toInt_lt
    rw [Int32.toInt_add, show (1 : Int32).toInt = 1 from rfl, Int.bmod_eq_of_le (by omega) (by omega)]
  have hcond : ∀ j : Int32, j < d ↔ j.toInt < d.toInt := fun _ => Int32.lt_iff_toInt_lt
  obtain ⟨t, fuel, hloop⟩ := Ends.of_counter Int32.toInt hcond hcount 0
  refine ⟨fuel, ?_⟩
  rw [delay, hloop, show (0 : Int32).toInt = 0 from rfl, Int.sub_zero]
  rfl

end OflMetrics
