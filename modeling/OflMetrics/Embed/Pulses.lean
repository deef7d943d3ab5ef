/-
A line that is high at rest, looked at once in each unit of time, and the low
pulses on it: what a receiver that times them sees.
-/
import Mathlib.Data.List.Basic

namespace Embed

/-- The widths of the low pulses of a line that has been low for `w`: a pulse is
seen when the line is high again. -/
def lowPulses : Nat → List Bool → List Nat
  | _, [] => []
  | w, false :: l => lowPulses (w + 1) l
  | w, true :: l => if w = 0 then lowPulses 0 l else w :: lowPulses 0 l

theorem lowPulses_low (w n : Nat) (l : List Bool) : lowPulses w (List.replicate n false ++ l) = lowPulses (w + n) l := by
  induction n generalizing w with
  | zero => rfl
  | succ n ih =>
    rw [List.replicate_succ, List.cons_append, lowPulses, ih]
    congr 1
    omega

theorem lowPulses_high (n : Nat) (l : List Bool) : lowPulses 0 (List.replicate n true ++ l) = lowPulses 0 l := by
  induction n with
  | zero => rfl
  | succ n ih => rw [List.replicate_succ, List.cons_append, lowPulses, if_pos rfl, ih]

/-- One pulse. -/
theorem lowPulses_pulse {n m : Nat} (hn : 0 < n) (hm : 0 < m) (l : List Bool) :
    lowPulses 0 (List.replicate n false ++ (List.replicate m true ++ l)) = n :: lowPulses 0 l := by
  obtain ⟨m, rfl⟩ := Nat.exists_eq_succ_of_ne_zero (Nat.ne_of_gt hm)
  rw [lowPulses_low, Nat.zero_add, List.replicate_succ, List.cons_append, lowPulses, if_neg (Nat.ne_of_gt hn), lowPulses_high]

end Embed
