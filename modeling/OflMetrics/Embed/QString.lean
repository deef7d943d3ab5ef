/-
Qt's `QString::arg`: the place markers with the lowest number (`%1`, `%2`, ...,
with `L` between for a localized one) are replaced by a string. In a text that
is plain up to some place the markers before it need not be looked for
(`arg_append`).
-/
import Mathlib.Data.List.Basic

namespace Embed.QString

def digitValue (c : Char) : Option Nat := if c.isDigit then some (c.toNat - '0'.toNat) else none

/-- One or two digits: their value and how many. -/
def markerNumber : List Char → Option (Nat × Nat)
  | [] => none
  | c :: s =>
    match digitValue c, s.head?.bind digitValue with
    | some d, some d' => some (10 * d + d', 2)
    | some d, none => some (d, 1)
    | none, _ => none

/-- The place marker a text starts with: its number and its length. -/
def marker : List Char → Option (Nat × Nat)
  | '%' :: 'L' :: s => (markerNumber s).map fun (n, k) => (n, k + 2)
  | '%' :: s => (markerNumber s).map fun (n, k) => (n, k + 1)
  | _ => none

/-- The numbers of the place markers in a text. -/
def markers : List Char → List Nat
  | [] => []
  | c :: s => (marker (c :: s)).toList.map (·.1) ++ markers s

/-- The text behind its first `k` characters, with `a` for the markers of number `n`. -/
def replace (n : Nat) (a : List Char) : Nat → List Char → List Char
  | _, [] => []
  | k + 1, _ :: s => replace n a k s
  | 0, c :: s =>
    match marker (c :: s) with
    | some (m, k) => if m = n then a ++ replace n a (k - 1) s else c :: replace n a 0 s
    | none => c :: replace n a 0 s

/-- `QString::arg`. -/
def arg (s a : List Char) : List Char :=
  match (markers s).min? with
  | some n => replace n a 0 s
  | none => s

theorem marker_plain {c : Char} (hc : c ≠ '%') (s : List Char) : marker (c :: s) = none := by
  unfold marker
  split
  · next heq => exact absurd (List.cons.inj heq).1 hc
  · next heq => exact absurd (List.cons.inj heq).1 hc
  · rfl

theorem markers_append {s : List Char} (h : '%' ∉ s) (t : List Char) : markers (s ++ t) = markers t := by
  induction s with
  | nil => rfl
  | cons c s ih =>
    rw [List.mem_cons, not_or] at h
    rw [List.cons_append, markers, marker_plain (Ne.symm h.1), ih h.2]
    rfl

theorem replace_append {s : List Char} (h : '%' ∉ s) (n : Nat) (a t : List Char) :
    replace n a 0 (s ++ t) = s ++ replace n a 0 t := by
  induction s with
  | nil => rfl
  | cons c s ih =>
    rw [List.mem_cons, not_or] at h
    rw [List.cons_append, replace, marker_plain (Ne.symm h.1), ih h.2]
    rfl

/-- A plain text in front stays as it is. -/
theorem arg_append {s : List Char} (h : '%' ∉ s) (t a : List Char) : arg (s ++ t) a = s ++ arg t a := by
  unfold arg
  rw [markers_append h]
  cases (markers t).min? with
  | none => rfl
  | some n => exact replace_append h n a t

end Embed.QString
