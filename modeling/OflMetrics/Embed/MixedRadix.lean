/-
Counters of several digits, each with a base of its own, the lowest digit
first: an odometer, or a clock.

`succ` adds one and carries. It keeps every digit below its base
(`Within.succ`) and the number they stand for is one more, up to the number of
states (`value_succ`); from there on any number of steps (`value_iterate`).
-/
import Mathlib.Algebra.BigOperators.Group.List.Basic
import Mathlib.Data.List.Forall2
import Mathlib.Data.Nat.ModEq
import Mathlib.Logic.Function.Iterate

namespace Embed.MixedRadix

/-- The number some digits stand for. -/
def value : List Nat → List Nat → Nat
  | b :: bs, d :: ds => d + b * value bs ds
  | _, _ => 0

/-- One more: a digit that reaches its base becomes zero, and the next counts. -/
def succ : List Nat → List Nat → List Nat
  | b :: bs, d :: ds => if d + 1 = b then 0 :: succ bs ds else (d + 1) :: ds
  | _, ds => ds

/-- Every digit is below its base. -/
def Within (bs ds : List Nat) : Prop := List.Forall₂ (fun b d => d < b) bs ds

variable {bs ds : List Nat}

theorem Within.value_lt (h : Within bs ds) : value bs ds < bs.prod := by
  induction h with
  | nil => exact Nat.one_pos
  | @cons b d bs ds hd _ ih =>
    have hrest : b * (value bs ds + 1) ≤ b * bs.prod := Nat.mul_le_mul_left b ih
    rw [Nat.mul_succ] at hrest
    rw [value, List.prod_cons]
    omega

theorem Within.succ (h : Within bs ds) : Within bs (succ bs ds) := by
  induction h with
  | nil => exact .nil
  | @cons b d bs ds hd hds ih =>
    rw [MixedRadix.succ]
    split
    · exact .cons (by omega) ih
    · exact .cons (by omega) hds

/-- The next number, or zero after the last one. -/
theorem Within.value_succ (h : Within bs ds) : value bs (MixedRadix.succ bs ds) = (value bs ds + 1) % bs.prod := by
  induction h with
  | nil => rfl
  | @cons b d bs ds hd hds ih =>
    rw [MixedRadix.succ]
    split
    · next hfull =>
      -- The digit's `b` and its carry are a multiple of `b`.
      have hcarry : d + b * value bs ds + 1 = b * (value bs ds + 1) := by rw [Nat.mul_succ]; omega
      rw [value, value, ih, hcarry, List.prod_cons, Nat.mul_mod_mul_left, Nat.zero_add]
    · next hroom =>
      have hnext : Within (b :: bs) ((d + 1) :: ds) := .cons (by omega) hds
      have hlt := hnext.value_lt
      rw [value, Nat.add_right_comm] at hlt
      rw [value, value, Nat.mod_eq_of_lt hlt, Nat.add_right_comm]

/-! ## Any number of steps -/

theorem Within.iterate (h : Within bs ds) (n : Nat) : Within bs ((MixedRadix.succ bs)^[n] ds) := by
  induction n with
  | zero => exact h
  | succ n ih =>
    rw [Function.iterate_succ_apply']
    exact ih.succ

theorem Within.value_iterate (h : Within bs ds) (n : Nat) :
    value bs ((MixedRadix.succ bs)^[n] ds) = (value bs ds + n) % bs.prod := by
  induction n with
  | zero => exact (Nat.mod_eq_of_lt h.value_lt).symm
  | succ n ih =>
    rw [Function.iterate_succ_apply', (h.iterate n).value_succ, ih, Nat.mod_add_mod, Nat.add_assoc]

end Embed.MixedRadix
