/-
Fixed-point arithmetic, which rounds by shifting to the right.

What is computed is an integer, what is meant is a number of an ordered field.
`Near e x y` bounds what lies between them, and each operation says what it
does to the bound: a sum adds the two, a factor scales one, a product scales
each by the other factor, to clamp changes nothing, and a shift scales the
bound down and adds what it cuts off.
-/
import Mathlib.Algebra.Order.Field.Basic
import Mathlib.Algebra.Order.Group.MinMax
import Mathlib.Algebra.Order.Ring.Abs
import Mathlib.Algebra.Order.Ring.Cast
import Mathlib.Algebra.Order.Ring.Int
import Mathlib.Tactic.FieldSimp
import Mathlib.Tactic.Linarith
import Mathlib.Tactic.Positivity
import Mathlib.Tactic.Ring

namespace Embed

variable {K : Type*} [Field K] [LinearOrder K]

/-- `x` is computed for `y`, with an error of at most `e`. -/
def Near (e x y : K) : Prop := |x - y| ≤ e

variable {e f x y x' y' c b : K}

theorem Near.weaken (h : Near e x y) (hef : e ≤ f) : Near f x y := le_trans h hef

variable [IsStrictOrderedRing K]

theorem Near.refl (x : K) : Near 0 x x := by
  simp [Near]

theorem Near.nonneg (h : Near e x y) : 0 ≤ e := (abs_nonneg _).trans h

theorem Near.add (h : Near e x y) (h' : Near f x' y') : Near (e + f) (x + x') (y + y') := by
  have hsum : x + x' - (y + y') = (x - y) + (x' - y') := by ring
  unfold Near at *
  rw [hsum]
  exact (abs_add_le _ _).trans (add_le_add h h')

theorem Near.mul_const (h : Near e x y) (hc : |c| ≤ b) : Near (e * b) (x * c) (y * c) := by
  have hmul : x * c - y * c = (x - y) * c := by ring
  unfold Near at *
  rw [hmul, abs_mul]
  exact mul_le_mul h hc (abs_nonneg _) ((abs_nonneg _).trans h)

theorem Near.sub (h : Near e x y) (h' : Near f x' y') : Near (e + f) (x - x') (y - y') := by
  have hsub : x - x' - (y - y') = (x - y) - (x' - y') := by ring
  unfold Near at *
  rw [hsub]
  exact (abs_sub _ _).trans (add_le_add h h')

/-- A product: each error counts for the other factor. -/
theorem Near.mul (h : Near e x y) (h' : Near f x' y') (hx : |x| ≤ b) (hy : |y'| ≤ c) : Near (f * b + e * c) (x * x') (y * y') := by
  have hmul : x * x' - y * y' = (x' - y') * x + (x - y) * y' := by ring
  have hfirst := mul_le_mul h' hx (abs_nonneg _) h'.nonneg
  have hsecond := mul_le_mul h hy (abs_nonneg _) h.nonneg
  rw [← abs_mul] at hfirst hsecond
  unfold Near
  rw [hmul]
  exact (abs_add_le _ _).trans (add_le_add hfirst hsecond)

/-- To clamp adds no error. -/
theorem Near.clamp (h : Near e x y) (lo hi : K) : Near e (min (max x lo) hi) (min (max y lo) hi) := by
  have hboth : max |max x lo - max y lo| |hi - hi| ≤ |x - y| := by
    refine max_le (abs_max_sub_max_le_abs x y lo) ?_
    rw [sub_self, abs_zero]
    exact abs_nonneg _
  exact ((abs_min_sub_min_le_max (max x lo) hi (max y lo) hi).trans hboth).trans h

theorem Near.abs_meant_le (h : Near e x y) (hx : |x| ≤ b) : |y| ≤ b + e := by
  have hsplit : y = x - (x - y) := by ring
  rw [hsplit]
  exact (abs_sub _ _).trans (add_le_add hx h)

/-- A square: the error counts for the argument and for what it was meant to be. -/
theorem Near.mul_self (h : Near e x y) (hx : |x| ≤ b) : Near (e * (2 * b + e)) (x * x) (y * y) := by
  have hsum : e * b + e * (b + e) = e * (2 * b + e) := by ring
  exact hsum ▸ h.mul h hx (h.abs_meant_le hx)

/-! ## Shifts -/

theorem cast_ediv_le (n : Int) (k : Nat) : ((n / 2 ^ k : Int) : K) * 2 ^ k ≤ n := by
  have h := Int.ediv_mul_le n (show (2 ^ k : Int) ≠ 0 by positivity)
  exact_mod_cast h

theorem lt_cast_ediv (n : Int) (k : Nat) : (n : K) < (((n / 2 ^ k : Int) : K) + 1) * 2 ^ k := by
  have h := Int.lt_ediv_add_one_mul_self n (show (0 : Int) < 2 ^ k by positivity)
  exact_mod_cast h

/-- A shift to the right is a quotient that is rounded down, which cuts off less than one. -/
theorem near_shift (n : Int) (k : Nat) : Near 1 ((n / 2 ^ k : Int) : K) (n / 2 ^ k) := by
  have hpow : (0 : K) < 2 ^ k := by positivity
  have hlow : ((n / 2 ^ k : Int) : K) ≤ n / 2 ^ k := (le_div_iff₀ hpow).mpr (cast_ediv_le n k)
  have hhigh : (n : K) / 2 ^ k < ((n / 2 ^ k : Int) : K) + 1 := (div_lt_iff₀ hpow).mpr (lt_cast_ediv n k)
  exact abs_le.mpr ⟨by linarith, by linarith⟩

theorem Near.div (h : Near e x y) (hc : 0 < c) : Near (e / c) (x / c) (y / c) := by
  unfold Near at *
  rw [← sub_div, abs_div, abs_of_pos hc]
  exact div_le_div_of_nonneg_right h hc.le

theorem Near.trans {z : K} (h : Near e x y) (h' : Near f y z) : Near (e + f) x z := by
  have hsum : x - z = (x - y) + (y - z) := by ring
  unfold Near at *
  rw [hsum]
  exact (abs_add_le _ _).trans (add_le_add h h')

theorem Near.shift {n : Int} (h : Near e (n : K) y) (k : Nat) : Near (1 + e / 2 ^ k) ((n / 2 ^ k : Int) : K) (y / 2 ^ k) :=
  (near_shift n k).trans (h.div (by positivity))

/-- With half of the divisor added first, a shift rounds to the nearest. -/
theorem near_shift_round (n : Int) (k : Nat) :
    Near (1 / 2) (((n + 2 ^ k) / 2 ^ (k + 1) : Int) : K) (n / 2 ^ (k + 1)) := by
  have hpow : (0 : K) < 2 ^ (k + 1) := by positivity
  have hlow : (((n + 2 ^ k) / 2 ^ (k + 1) : Int) : K) ≤ ((n : K) + 2 ^ k) / 2 ^ (k + 1) := by
    rw [le_div_iff₀ hpow]
    exact_mod_cast cast_ediv_le (K := K) (n + 2 ^ k) (k + 1)
  have hhigh : ((n : K) + 2 ^ k) / 2 ^ (k + 1) < (((n + 2 ^ k) / 2 ^ (k + 1) : Int) : K) + 1 := by
    rw [div_lt_iff₀ hpow]
    exact_mod_cast lt_cast_ediv (K := K) (n + 2 ^ k) (k + 1)
  have hhalf : ((n : K) + 2 ^ k) / 2 ^ (k + 1) = n / 2 ^ (k + 1) + 1 / 2 := by
    rw [add_div, pow_succ]
    congr 1
    rw [div_mul_eq_div_div, div_self (by positivity)]
  rw [hhalf] at hlow hhigh
  exact abs_le.mpr ⟨by linarith, by linarith⟩

theorem Near.shift_round {n : Int} (h : Near e (n : K) y) (k : Nat) :
    Near (1 / 2 + e / 2 ^ (k + 1)) (((n + 2 ^ k) / 2 ^ (k + 1) : Int) : K) (y / 2 ^ (k + 1)) :=
  (near_shift_round n k).trans (h.div (by positivity))

/-! ## Quotients -/

/-- A quotient that is cut off towards zero. -/
theorem near_tdiv (n : Int) {d : Int} (hd : 0 < d) : Near 1 ((n.tdiv d : Int) : K) (n / d) := by
  have hpos : (0 : K) < d := Int.cast_pos.mpr hd
  have hsplit : (d : K) * ((n.tdiv d : Int) : K) + ((n.tmod d : Int) : K) = n := by
    exact_mod_cast Int.mul_tdiv_add_tmod n d
  have hlow : -(d : K) < ((n.tmod d : Int) : K) := by
    exact_mod_cast Int.lt_tmod_of_pos n hd
  have hhigh : ((n.tmod d : Int) : K) < d := by
    exact_mod_cast Int.tmod_lt_of_pos n hd
  have herror : ((n.tdiv d : Int) : K) - n / d = -(((n.tmod d : Int) : K) / d) := by
    rw [← hsplit]
    field_simp
    ring
  rw [Near, herror, abs_neg, abs_div, abs_of_pos hpos, div_le_one hpos]
  exact abs_le.mpr ⟨hlow.le, hhigh.le⟩

/-- A divisor that is large enough passes little of its error on. -/
theorem Near.div_left {d z : K} (h : Near e d z) (hb : 0 < b) (hd : b ≤ d) (hz : b ≤ z) (hx : |x| ≤ c) :
    Near (c * e / (b * b)) (x / d) (x / z) := by
  have hdpos : 0 < d := hb.trans_le hd
  have hzpos : 0 < z := hb.trans_le hz
  have herror : x / d - x / z = x * (z - d) / (d * z) := by
    field_simp
  have hnum : |x * (z - d)| ≤ c * e := by
    rw [abs_mul, abs_sub_comm]
    exact mul_le_mul hx h (abs_nonneg _) ((abs_nonneg _).trans hx)
  have hden : b * b ≤ d * z := mul_le_mul hd hz hb.le hdpos.le
  rw [Near, herror, abs_div, abs_of_pos (mul_pos hdpos hzpos)]
  exact div_le_div₀ ((abs_nonneg _).trans hnum) hnum (mul_pos hb hb) hden

end Embed
