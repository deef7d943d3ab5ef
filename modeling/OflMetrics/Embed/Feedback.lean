/-
Output feedback, which makes a stream cipher of a function on blocks: a block
is used up element by element, and the next one is the function's value at it.

`Feedback.next` is the machine that does this; its state is a block and how
much of it is used up. `keystream` is the stream it stands for, and `after`
the state it is in once a number of elements is taken; `next_after` is the
refinement. Where the stream is added by an operation that undoes itself, the
same run of the stream added again gives back what was there
(`mask_mask`), and a run may be cut anywhere (`mask_append`).
-/
import Mathlib.Logic.Function.Iterate
import OflMetrics.Embed.Mem

namespace Embed

/-- A block, and how much of it is used up. -/
structure Feedback (β : Type) where
  pad : β
  used : Nat

variable {α β : Type} (n : Nat) (E : β → β) (get : β → Nat → α)

/-- Element `i` of the stream that begins behind the block `iv`. -/
def keystream (iv : β) (i : Nat) : α := get (E^[i / n + 1] iv) (i % n)

namespace Feedback

/-- The next element. -/
def next (s : Feedback β) : Feedback β × α :=
  let s := if s.used = n then { pad := E s.pad, used := 0 } else s
  ({ s with used := s.used + 1 }, get s.pad s.used)

/-- The state after `k` elements: the first block is used up from the start. -/
def after (iv : β) : Nat → Feedback β
  | 0 => { pad := iv, used := n }
  | k + 1 => { pad := E^[k / n + 1] iv, used := k % n + 1 }

variable {n}

/-- At the end of a block the next one begins; elsewhere the block goes on. -/
theorem succ_div_mod (hn : 0 < n) (k : Nat) :
    (k % n + 1 = n ∧ (k + 1) / n = k / n + 1 ∧ (k + 1) % n = 0) ∨
      (k % n + 1 ≠ n ∧ (k + 1) / n = k / n ∧ (k + 1) % n = k % n + 1) := by
  have hk := Nat.div_add_mod k n
  have hlt := Nat.mod_lt k hn
  rcases Nat.lt_or_ge (k % n + 1) n with h | h
  · refine .inr ⟨Nat.ne_of_lt h, ?_, ?_⟩
    · refine Nat.div_eq_of_lt_le ?_ ?_
      · rw [Nat.mul_comm]
        omega
      · rw [Nat.succ_mul, Nat.mul_comm]
        omega
    · rw [Nat.add_mod, Nat.mod_eq_of_lt (Nat.lt_of_le_of_lt (Nat.le_add_left 1 _) h), Nat.mod_eq_of_lt h]
  · have heq : k % n + 1 = n := by omega
    have hnext : k + 1 = n * (k / n + 1) := by
      rw [Nat.mul_succ]
      omega
    refine .inl ⟨heq, ?_, ?_⟩
    · rw [hnext, Nat.mul_div_cancel_left _ hn]
    · rw [hnext, Nat.mul_mod_right]

/-- The machine delivers the stream. -/
theorem next_after (hn : 0 < n) (iv : β) (k : Nat) :
    next n E get (after n E iv k) = (after n E iv (k + 1), keystream n E get iv k) := by
  cases k with
  | zero =>
    simp only [next, after, keystream, if_true, Nat.zero_div, Nat.zero_mod, Nat.zero_add, Function.iterate_one]
  | succ k =>
    rcases succ_div_mod hn k with ⟨hend, hdiv, hmod⟩ | ⟨hin, hdiv, hmod⟩
    · simp only [next, after, keystream, hend, if_true, hdiv, hmod, Function.iterate_succ_apply']
    · simp only [next, after, keystream, hin, if_false, hdiv, hmod]

/-- No more than a block is ever used up. -/
theorem used_after_le (hn : 0 < n) (iv : β) (k : Nat) : (after n E iv k).used ≤ n := by
  cases k with
  | zero => exact Nat.le_refl n
  | succ k => exact Nat.mod_lt k hn

end Feedback

/-! ## Memory under a stream -/

section

variable (op : α → α → α) (ks : Nat → α)

/-- The `n` elements at `src`, each with its element of the stream from `k` on, at `dst`. -/
def Mem.mask (m : Mem α) (src dst n k : Nat) : Mem α :=
  fun i => if dst ≤ i ∧ i < dst + n then op (m (src + (i - dst))) (ks (k + (i - dst))) else m i

@[simp] theorem Mem.mask_zero (m : Mem α) (src dst k : Nat) : Mem.mask op ks m src dst 0 k = m := by
  funext i
  exact if_neg (by omega)

/-- One element. -/
theorem Mem.mask_succ (m : Mem α) {src dst n : Nat} (h : dst ≤ src ∨ src + (n + 1) ≤ dst) (k : Nat) :
    Mem.mask op ks (Function.update m dst (op (m src) (ks k))) (src + 1) (dst + 1) n (k + 1) =
      Mem.mask op ks m src dst (n + 1) k := by
  funext i
  unfold Mem.mask
  rcases Nat.lt_trichotomy i dst with hlt | heq | hgt
  · rw [if_neg (by omega), if_neg (by omega), Function.update_of_ne (by omega)]
  · subst heq
    rw [if_neg (by omega), if_pos (by omega), Function.update_self, Nat.sub_self]
    rfl
  · by_cases hin : i < dst + (n + 1)
    · -- What is read is not the element written before.
      have hread : src + 1 + (i - (dst + 1)) = src + (i - dst) := by omega
      have hstream : k + 1 + (i - (dst + 1)) = k + (i - dst) := by omega
      rw [if_pos (by omega), if_pos (by omega), hread, hstream, Function.update_of_ne (by omega)]
    · rw [if_neg (by omega), if_neg (by omega), Function.update_of_ne (by omega)]

/-- A run in place may be cut. -/
theorem Mem.mask_append (m : Mem α) (p n n' k : Nat) :
    Mem.mask op ks (Mem.mask op ks m p p n k) (p + n) (p + n) n' (k + n) = Mem.mask op ks m p p (n + n') k := by
  funext i
  unfold Mem.mask
  by_cases hlow : i < p + n
  · rw [if_neg (by omega)]
    by_cases hp : p ≤ i
    · rw [if_pos ⟨hp, hlow⟩, if_pos ⟨hp, by omega⟩]
    · rw [if_neg (by omega), if_neg (by omega)]
  · by_cases hhigh : i < p + n + n'
    · rw [if_pos (by omega), if_neg (by omega), if_pos (by omega)]
      congr 2 <;> omega
    · rw [if_neg (by omega), if_neg (by omega), if_neg (by omega)]

/-- A stream added twice. -/
theorem Mem.mask_mask (hop : ∀ a b, op (op a b) b = a) (m : Mem α) (p n k : Nat) :
    Mem.mask op ks (Mem.mask op ks m p p n k) p p n k = m := by
  funext i
  unfold Mem.mask
  by_cases hin : p ≤ i ∧ i < p + n
  · have hi : p + (i - p) = i := by omega
    rw [if_pos hin, hi, if_pos hin, hop, hi]
  · rw [if_neg hin, if_neg hin]

end

end Embed
