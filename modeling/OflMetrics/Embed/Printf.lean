/-
What C's `printf` prints for the integer conversions, and how long it is.

`digits n` is the number of decimal digits of `n`; the length of every
conversion is stated with it (`length_dec`, `length_zdec`, `length_decInt`).
-/
import Mathlib.Algebra.Group.Nat.Defs
import Mathlib.Data.Nat.Log

namespace Embed.Printf

/-- `%u` -/
def dec (n : Nat) : List Char := Nat.toDigits 10 n

/-- `%d` -/
def decInt (i : Int) : List Char := if i < 0 then '-' :: dec i.natAbs else dec i.natAbs

/-- `%0wu` -/
def zdec (w n : Nat) : List Char := List.leftpad w '0' (dec n)

/-- `%0wd` -/
def zdecInt (w : Nat) (i : Int) : List Char := if i < 0 then '-' :: zdec (w - 1) i.natAbs else zdec w i.natAbs

/-- `%02X` of a byte -/
def hex2 (b : UInt8) : List Char := [(Nat.digitChar (b.toNat / 16)).toUpper, (Nat.digitChar (b.toNat % 16)).toUpper]

/-- The number of decimal digits. -/
def digits (n : Nat) : Nat := Nat.log 10 n + 1

theorem digits_le_iff {n k : Nat} (hk : 0 < k) : digits n ≤ k ↔ n < 10 ^ k := by
  unfold digits
  constructor
  · intro h
    exact Nat.lt_pow_of_log_lt (by decide) h
  · intro h
    exact Nat.log_lt_of_lt_pow' (by omega) h

theorem digits_pos (n : Nat) : 0 < digits n := Nat.succ_pos _

theorem length_dec (n : Nat) : (dec n).length = digits n := by
  have hiff {k : Nat} (hk : 0 < k) : (dec n).length ≤ k ↔ digits n ≤ k := by
    rw [digits_le_iff hk]
    exact Nat.length_toDigits_le_iff (by decide) hk
  have hpos : 0 < (dec n).length := Nat.length_toDigits_pos
  exact Nat.le_antisymm ((hiff (digits_pos n)).mpr (Nat.le_refl _)) ((hiff hpos).mp (Nat.le_refl _))

theorem length_zdec (w n : Nat) : (zdec w n).length = max w (digits n) := by
  rw [zdec, List.leftpad, List.length_append, List.length_replicate, length_dec]
  omega

theorem length_decInt (i : Int) : (decInt i).length = (if i < 0 then 1 else 0) + digits i.natAbs := by
  unfold decInt
  split
  · rw [List.length_cons, length_dec, Nat.add_comm]
  · rw [length_dec, Nat.zero_add]

@[simp] theorem zdecInt_natCast (w n : Nat) : zdecInt w (n : Int) = zdec w n := by
  simp [zdecInt, show ¬ ((n : Int) < 0) by omega]

@[simp] theorem decInt_natCast (n : Nat) : decInt (n : Int) = dec n := by
  simp [decInt, show ¬ ((n : Int) < 0) by omega]

@[simp] theorem length_hex2 (b : UInt8) : (hex2 b).length = 2 := rfl

/-! ## The characters -/

/-- What a printed number is made of. -/
def IsNumeral (c : Char) : Prop := c.isDigit ∨ c = '-' ∨ c ∈ ['A', 'B', 'C', 'D', 'E', 'F']

theorem exists_digit {c : Char} (h : c.isDigit = true) : ∃ k : Fin 10, c = Char.ofNat (48 + k) := by
  simp only [Char.isDigit, Bool.and_eq_true, decide_eq_true_eq, ge_iff_le, UInt32.le_iff_toNat_le] at h
  obtain ⟨hlow, hhigh⟩ := h
  have hlow : 48 ≤ c.toNat := hlow
  have hhigh : c.toNat ≤ 57 := hhigh
  refine ⟨⟨c.toNat - 48, by omega⟩, ?_⟩
  rw [show 48 + (c.toNat - 48) = c.toNat by omega, Char.ofNat_toNat]

theorem isNumeral_dec {n : Nat} {c : Char} (h : c ∈ dec n) : IsNumeral c :=
  .inl (Nat.isDigit_of_mem_toDigits (by decide) (by decide) h)

theorem isNumeral_zdec {w n : Nat} {c : Char} (h : c ∈ zdec w n) : IsNumeral c := by
  rw [zdec, List.leftpad, List.mem_append] at h
  rcases h with h | h
  · rw [List.eq_of_mem_replicate h]
    exact .inl rfl
  · exact isNumeral_dec h

theorem isNumeral_decInt {i : Int} {c : Char} (h : c ∈ decInt i) : IsNumeral c := by
  unfold decInt at h
  split at h
  · rcases List.mem_cons.mp h with rfl | h
    · exact .inr (.inl rfl)
    · exact isNumeral_dec h
  · exact isNumeral_dec h

theorem isNumeral_zdecInt {w : Nat} {i : Int} {c : Char} (h : c ∈ zdecInt w i) : IsNumeral c := by
  unfold zdecInt at h
  split at h
  · rcases List.mem_cons.mp h with rfl | h
    · exact .inr (.inl rfl)
    · exact isNumeral_zdec h
  · exact isNumeral_zdec h

theorem isNumeral_hexDigit {k : Nat} (hk : k < 16) : IsNumeral (Nat.digitChar k).toUpper := by
  have hall : ∀ k : Fin 16, IsNumeral (Nat.digitChar k).toUpper := by
    unfold IsNumeral
    decide
  exact hall ⟨k, hk⟩

theorem isNumeral_hex2 {b : UInt8} {c : Char} (h : c ∈ hex2 b) : IsNumeral c := by
  have hb := b.toNat_lt
  rcases List.mem_cons.mp h with rfl | h
  · exact isNumeral_hexDigit (by omega)
  · rw [List.mem_singleton.mp h]
    exact isNumeral_hexDigit (Nat.mod_lt _ (by decide))

theorem dec_ne_nil (n : Nat) : dec n ≠ [] := Nat.toDigits_ne_nil

end Embed.Printf
