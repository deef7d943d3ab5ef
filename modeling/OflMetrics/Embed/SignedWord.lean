/-
The signed integers of a machine.

Sums, differences and products of such words wrap around; as long as they fit,
they are what they are without a width. `Holds u m` says which integer a word
stands for, and each operation keeps it when its result fits. A shift to the
right is a quotient by a power of two, rounded down, and always fits.
-/
import Mathlib.Algebra.Order.Ring.Abs
import Mathlib.Algebra.Order.Ring.Int
import Mathlib.Tactic.IntervalCases
import Mathlib.Tactic.Linarith
import Mathlib.Tactic.NormNum

namespace Embed

/-- `n` is a value of `w` bits. -/
def FitsIn (w : Nat) (n : Int) : Prop := -2 ^ w ≤ 2 * n ∧ 2 * n < 2 ^ w

instance (w : Nat) (n : Int) : Decidable (FitsIn w n) := inferInstanceAs (Decidable (_ ∧ _))

theorem FitsIn.bmod_eq {w : Nat} {n : Int} (h : FitsIn w n) : n.bmod (2 ^ w) = n := by
  obtain ⟨hlow, hhigh⟩ := h
  refine Int.bmod_eq_of_le_mul_two ?_ ?_
  · push_cast
    omega
  · push_cast
    omega

theorem FitsIn.of_abs {w : Nat} {b n : Int} (h : |n| ≤ b) (hb : 2 * b < 2 ^ w) : FitsIn w n := by
  obtain ⟨hlow, hhigh⟩ := abs_le.mp h
  exact ⟨by omega, by omega⟩

theorem FitsIn.abs_le {w : Nat} {n : Int} (h : FitsIn w n) : 2 * |n| ≤ 2 ^ w := by
  obtain ⟨hlow, hhigh⟩ := h
  rcases abs_cases n with ⟨habs, -⟩ | ⟨habs, -⟩
  · omega
  · omega

/-- The signed integers of a machine: sums, differences, products and shifts to
the left wrap, quotients are cut off towards zero, and shifts to the right keep
the sign. -/
class SignedWord (α : Type*) (width : outParam Nat) [Add α] [Sub α] [Mul α] [Div α] [ShiftLeft α] [ShiftRight α] where
  toInt : α → Int
  /-- The amount of a shift. -/
  amount : Nat → α
  fitsIn_toInt (a : α) : FitsIn width (toInt a)
  toInt_add (a b : α) : toInt (a + b) = (toInt a + toInt b).bmod (2 ^ width)
  toInt_sub (a b : α) : toInt (a - b) = (toInt a - toInt b).bmod (2 ^ width)
  toInt_mul (a b : α) : toInt (a * b) = (toInt a * toInt b).bmod (2 ^ width)
  toInt_div (a b : α) : toInt (a / b) = ((toInt a).tdiv (toInt b)).bmod (2 ^ width)
  toInt_shiftLeft (a : α) {k : Nat} : k < width → toInt (a <<< amount k) = (toInt a * 2 ^ k).bmod (2 ^ width)
  toInt_shiftRight (a : α) {k : Nat} : k < width → toInt (a >>> amount k) = toInt a / 2 ^ k

namespace SignedWord

theorem bmod_shiftLeft {w : Nat} (x : BitVec w) (k : Nat) : (x <<< k).toInt = (x.toInt * 2 ^ k).bmod (2 ^ w) := by
  rw [BitVec.toInt_shiftLeft, BitVec.toInt_eq_toNat_bmod, Int.bmod_mul_bmod, Nat.shiftLeft_eq]
  push_cast
  rfl

instance : SignedWord Int32 32 where
  toInt := Int32.toInt
  amount := Int32.ofNat
  fitsIn_toInt a := by
    have hlow := a.le_toInt
    have hhigh := a.toInt_lt
    constructor
    · omega
    · omega
  toInt_add := Int32.toInt_add
  toInt_sub := Int32.toInt_sub
  toInt_mul := Int32.toInt_mul
  toInt_div := Int32.toInt_div
  toInt_shiftLeft a k hk := by
    have hmod : ((Int32.ofNat k).toBitVec.smod 32).toNat = k := by
      interval_cases k <;> rfl
    rw [← Int32.toInt_toBitVec, Int32.toBitVec_shiftLeft, BitVec.shiftLeft_eq', hmod, bmod_shiftLeft, Int32.toInt_toBitVec]
  toInt_shiftRight a k hk := by
    have hmod : ((Int32.ofNat k).toBitVec.smod 32).toNat = k := by
      interval_cases k <;> rfl
    rw [← Int32.toInt_toBitVec, Int32.toBitVec_shiftRight, BitVec.toInt_sshiftRight', hmod, Int32.toInt_toBitVec,
      Int.shiftRight_eq_div_pow]
    push_cast
    rfl

instance : SignedWord Int64 64 where
  toInt := Int64.toInt
  amount := Int64.ofNat
  fitsIn_toInt a := by
    have hlow := a.le_toInt
    have hhigh := a.toInt_lt
    constructor
    · omega
    · omega
  toInt_add := Int64.toInt_add
  toInt_sub := Int64.toInt_sub
  toInt_mul := Int64.toInt_mul
  toInt_div := Int64.toInt_div
  toInt_shiftLeft a k hk := by
    have hmod : ((Int64.ofNat k).toBitVec.smod 64).toNat = k := by
      interval_cases k <;> rfl
    rw [← Int64.toInt_toBitVec, Int64.toBitVec_shiftLeft, BitVec.shiftLeft_eq', hmod, bmod_shiftLeft, Int64.toInt_toBitVec]
  toInt_shiftRight a k hk := by
    have hmod : ((Int64.ofNat k).toBitVec.smod 64).toNat = k := by
      interval_cases k <;> rfl
    rw [← Int64.toInt_toBitVec, Int64.toBitVec_shiftRight, BitVec.toInt_sshiftRight', hmod, Int64.toInt_toBitVec,
      Int.shiftRight_eq_div_pow]
    push_cast
    rfl

/-- An unsigned word whose top bit is clear is the same when it is signed. -/
theorem toInt_toInt32 {u : UInt32} (h : u.toNat < 2 ^ 31) : u.toInt32.toInt = u.toNat := by
  rw [← Int32.toInt_toBitVec, UInt32.toBitVec_toInt32, BitVec.toInt_eq_toNat_of_lt, UInt32.toNat_toBitVec]
  rw [UInt32.toNat_toBitVec]
  omega

section

variable {α : Type*} [Add α] [Sub α] [Mul α] [Div α] [ShiftLeft α] [ShiftRight α] {w : Nat} [SignedWord α w]

/-- The word `u` holds `m`. -/
def Holds (u : α) (m : Int) : Prop := toInt u = m

variable {u v : α} {m n : Int} {k : Nat}

theorem holds_toInt (u : α) : Holds u (toInt u) := rfl

theorem Holds.add (hu : Holds u m) (hv : Holds v n) (h : FitsIn w (m + n)) : Holds (u + v) (m + n) := by
  rw [Holds, toInt_add, hu, hv, h.bmod_eq]

theorem Holds.sub (hu : Holds u m) (hv : Holds v n) (h : FitsIn w (m - n)) : Holds (u - v) (m - n) := by
  rw [Holds, toInt_sub, hu, hv, h.bmod_eq]

theorem Holds.mul (hu : Holds u m) (hv : Holds v n) (h : FitsIn w (m * n)) : Holds (u * v) (m * n) := by
  rw [Holds, toInt_mul, hu, hv, h.bmod_eq]

theorem Holds.div (hu : Holds u m) (hv : Holds v n) (h : FitsIn w (m.tdiv n)) : Holds (u / v) (m.tdiv n) := by
  rw [Holds, toInt_div, hu, hv, h.bmod_eq]

theorem Holds.shiftLeft (hu : Holds u m) (k : Nat) (hk : k < w) (h : FitsIn w (m * 2 ^ k)) :
    Holds (u <<< (amount k : α)) (m * 2 ^ k) := by
  rw [Holds, toInt_shiftLeft u hk, hu, h.bmod_eq]

theorem Holds.shiftRight (hu : Holds u m) (k : Nat) (hk : k < w) : Holds (u >>> (amount k : α)) (m / 2 ^ k) := by
  rw [Holds, toInt_shiftRight u hk, hu]

/-! ## Magnitudes -/

theorem abs_ediv_le {b m : Int} {k : Nat} (h : |m| ≤ b * 2 ^ k) : |m / 2 ^ k| ≤ b := by
  obtain ⟨hlow, hhigh⟩ := abs_le.mp h
  have hpow : (0 : Int) < 2 ^ k := pow_pos two_pos k
  refine abs_le.mpr ⟨(Int.le_ediv_iff_mul_le hpow).mpr ?_, Int.ediv_le_of_le_mul hpow hhigh⟩
  rw [Int.neg_mul]
  exact hlow

/-- A divisor of at least `c` leaves a `c`-th. -/
theorem abs_tdiv_le {b c m n : Int} (h : |m| ≤ b * c) (hc : 0 < c) (hn : c ≤ n) : |m.tdiv n| ≤ b := by
  have hb : 0 ≤ b := nonneg_of_mul_nonneg_left ((abs_nonneg m).trans h) hc
  have hmul : (m.natAbs : Int) ≤ n.natAbs * b.natAbs := by
    rw [← Int.abs_eq_natAbs, ← Int.abs_eq_natAbs, ← Int.abs_eq_natAbs, abs_of_pos (hc.trans_le hn), abs_of_nonneg hb, mul_comm n]
    exact h.trans (mul_le_mul_of_nonneg_left hn hb)
  have hdiv : (m.natAbs / n.natAbs : Nat) ≤ b.natAbs := Nat.div_le_of_le_mul (by exact_mod_cast hmul)
  rw [Int.abs_eq_natAbs, Int.natAbs_tdiv, ← abs_of_nonneg hb, Int.abs_eq_natAbs b]
  exact_mod_cast hdiv

/-- The word `u` holds `m`, which is at most `b` in magnitude. -/
structure Bounded (b : Int) (u : α) (m : Int) : Prop where
  holds : Holds u m
  le : |m| ≤ b

variable {b c : Int}

theorem Bounded.add (hu : Bounded b u m) (hv : Bounded c v n) (h : 2 * (b + c) < 2 ^ w) : Bounded (b + c) (u + v) (m + n) := by
  have hle := (abs_add_le m n).trans (add_le_add hu.le hv.le)
  exact ⟨hu.holds.add hv.holds (.of_abs hle h), hle⟩

theorem Bounded.sub (hu : Bounded b u m) (hv : Bounded c v n) (h : 2 * (b + c) < 2 ^ w) : Bounded (b + c) (u - v) (m - n) := by
  have hle := (abs_sub m n).trans (add_le_add hu.le hv.le)
  exact ⟨hu.holds.sub hv.holds (.of_abs hle h), hle⟩

theorem Bounded.mul (hu : Bounded b u m) (hv : Bounded c v n) (h : 2 * (b * c) < 2 ^ w) : Bounded (b * c) (u * v) (m * n) := by
  have hle : |m * n| ≤ b * c := by
    rw [abs_mul]
    exact mul_le_mul hu.le hv.le (abs_nonneg n) ((abs_nonneg m).trans hu.le)
  exact ⟨hu.holds.mul hv.holds (.of_abs hle h), hle⟩

theorem Bounded.shiftLeft (hu : Bounded b u m) (k : Nat) (hk : k < w) (h : 2 * (b * 2 ^ k) < 2 ^ w) :
    Bounded (b * 2 ^ k) (u <<< (amount k : α)) (m * 2 ^ k) := by
  have hle : |m * 2 ^ k| ≤ b * 2 ^ k := by
    rw [abs_mul, abs_of_pos (show (0 : Int) < 2 ^ k from pow_pos two_pos k)]
    exact mul_le_mul_of_nonneg_right hu.le (pow_nonneg two_pos.le k)
  exact ⟨hu.holds.shiftLeft k hk (.of_abs hle h), hle⟩

theorem Bounded.shiftRight (hu : Bounded (b * 2 ^ k) u m) (hk : k < w) : Bounded b (u >>> (amount k : α)) (m / 2 ^ k) :=
  ⟨hu.holds.shiftRight k hk, abs_ediv_le hu.le⟩

theorem Bounded.div (hu : Bounded (b * c) u m) (hv : Holds v n) (hc : 0 < c) (hn : c ≤ n) (h : 2 * b < 2 ^ w) :
    Bounded b (u / v) (m.tdiv n) :=
  have hle := abs_tdiv_le hu.le hc hn
  ⟨hu.holds.div hv (.of_abs hle h), hle⟩

end

end SignedWord

end Embed
