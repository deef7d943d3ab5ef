/-
`wait100ms` of `oflnode.c`, which waits for a number of timer ticks by reading
`tmr_cntr` again and again.

The counter wraps after `2 ^ 32` ticks, and so does the difference to the value
it had at the call. From any such value, the loop ends at the first reading
that comes late enough if it comes before the difference wraps, and never
earlier (`wait100ms_right`).
-/
import OflMetrics.WallClock

namespace OflMetrics

open Embed

/-- The loop of `wait100ms`, over the values it reads: how many it reads before
the one it ends at, `none` while it waits. -/
def wait100msLoop (delta oldc : UInt32) : List UInt32 → Option Nat
  | [] => none
  | tmrCntr :: later =>
    let del := tmrCntr - oldc
    if del < delta then (wait100msLoop delta oldc later).map (· + 1) else some 0

/-- `wait100ms`, called in the state `s`: its first `n` readings, the one of
turn `k` after `elapsed k` interrupts. -/
def wait100ms (s : NodeTimer) (delta : UInt32) (elapsed : Nat → Nat) (n : Nat) : Option Nat :=
  let oldc := s.tmrCntr
  wait100msLoop delta oldc ((List.range n).map fun k => (NodeTimer.tmr0Isr^[elapsed k] s).tmrCntr)

/-- It ends at turn `k`. -/
def Returns (s : NodeTimer) (delta : UInt32) (elapsed : Nat → Nat) (k : Nat) : Prop :=
  ∃ n, wait100ms s delta elapsed n = some k

/-- The first turn whose reading comes after `delta` ticks or more. -/
structure FirstDue (delta : UInt32) (elapsed : Nat → Nat) (k : Nat) : Prop where
  due : delta.toNat ≤ elapsed k
  early : ∀ j, j < k → elapsed j < delta.toNat

/-! ## The loop -/

theorem wait100msLoop_eq (delta oldc : UInt32) (readings : List UInt32) :
    wait100msLoop delta oldc readings = readings.findIdx? fun c => ¬ c - oldc < delta := by
  induction readings with
  | nil => rfl
  | cons c later ih =>
    rw [wait100msLoop, List.findIdx?_cons, ih]
    by_cases h : c - oldc < delta
    · simp [h]
    · simp [h]

/-- The difference a turn computes. -/
theorem toNat_del (s : NodeTimer) (e : Nat) :
    ((NodeTimer.tmr0Isr^[e] s).tmrCntr - s.tmrCntr).toNat = e % 2 ^ 32 := by
  rw [NodeTimer.tmrCntr_iterate, UInt32.add_comm, UInt32.add_sub_cancel]
  exact UInt32.toNat_ofNat'

variable {s : NodeTimer} {delta : UInt32} {elapsed : Nat → Nat} {k : Nat}

/-- It ends at the first turn at which the elapsed ticks, up to `2 ^ 32`, are enough. -/
theorem returns_iff :
    Returns s delta elapsed k ↔
      delta.toNat ≤ elapsed k % 2 ^ 32 ∧ ∀ j, j < k → elapsed j % 2 ^ 32 < delta.toNat := by
  simp only [Returns, wait100ms, wait100msLoop_eq, List.findIdx?_eq_some_iff_getElem, List.length_map,
    List.length_range, List.getElem_map, List.getElem_range, UInt32.lt_iff_toNat_lt, toNat_del, decide_eq_true_eq,
    Nat.not_lt, Nat.not_le]
  constructor
  · rintro ⟨n, -, hdue, hearly⟩
    exact ⟨hdue, hearly⟩
  · rintro ⟨hdue, hearly⟩
    exact ⟨k + 1, Nat.lt_succ_self k, hdue, hearly⟩

theorem FirstDue.returns (h : FirstDue delta elapsed k) (hk : elapsed k < 2 ^ 32) : Returns s delta elapsed k := by
  refine returns_iff.mpr ⟨?_, fun j hj => Nat.lt_of_le_of_lt (Nat.mod_le _ _) (h.early j hj)⟩
  rw [Nat.mod_eq_of_lt hk]
  exact h.due

theorem Returns.due (h : Returns s delta elapsed k) : delta.toNat ≤ elapsed k :=
  Nat.le_trans (returns_iff.mp h).1 (Nat.mod_le _ _)

/-- With a reading after every number of ticks, one comes after exactly `delta`. -/
theorem returns_of_every (h : ∀ n, ∃ k, elapsed k = n) : ∃ k, Returns s delta elapsed k := by
  have hdue : ∃ k, delta.toNat ≤ elapsed k % 2 ^ 32 := by
    obtain ⟨k, hk⟩ := h delta.toNat
    refine ⟨k, ?_⟩
    rw [hk, Nat.mod_eq_of_lt delta.toNat_lt]
  refine ⟨Nat.find hdue, returns_iff.mpr ⟨Nat.find_spec hdue, fun j hj => ?_⟩⟩
  exact Nat.not_le.mp (Nat.find_min hdue hj)

/-- **Waiting is right across the wrap**: it ends at the first turn that comes
late enough if that comes within `2 ^ 32` ticks, it ends at no earlier turn,
and it ends if every tick is read. -/
theorem wait100ms_right (s : NodeTimer) (delta : UInt32) (elapsed : Nat → Nat) :
    (∀ k, FirstDue delta elapsed k → elapsed k < 2 ^ 32 → Returns s delta elapsed k) ∧
      (∀ k, Returns s delta elapsed k → delta.toNat ≤ elapsed k) ∧
      ((∀ n, ∃ k, elapsed k = n) → ∃ k, Returns s delta elapsed k) :=
  ⟨fun _ h hk => h.returns hk, fun _ h => h.due, returns_of_every⟩

end OflMetrics
