/-
C's string functions, on the bytes of a string before its terminating zero.

`strstr(s, name)` finds `name` exactly when `name <:+: s`; `atoi` reads a
decimal number as `strtol` does, up to the range of a 32-bit `int`. `strncmp`
compares in memory, since a bound may end it before either string does.
-/
import Mathlib.Data.List.Infix
import OflMetrics.Embed.Mem

namespace Embed.CString

/-- The bytes of a text of ASCII characters. -/
def ascii (s : String) : List UInt8 := s.toList.map Char.toUInt8

/-- `isspace`. -/
def IsSpace (c : UInt8) : Bool := c = 32 ∨ 9 ≤ c ∧ c ≤ 13

/-- `isdigit`. -/
def IsDigit (c : UInt8) : Bool := 48 ≤ c ∧ c ≤ 57

/-- The value of a run of digits. -/
def decimal (ds : List UInt8) : Nat := ds.foldl (fun n d => 10 * n + (d.toNat - 48)) 0

/-- `atoi`: blanks, a sign, digits. -/
def atoi (s : List UInt8) : Int :=
  let s := s.dropWhile IsSpace
  let n : Int := match s with
    | 45 :: s => -decimal (s.takeWhile IsDigit)
    | 43 :: s => decimal (s.takeWhile IsDigit)
    | s => decimal (s.takeWhile IsDigit)
  max (-2 ^ 31) (min n (2 ^ 31 - 1))

example : atoi (ascii " -12 ") = -12 := by decide

/-- The memory of a string literal. -/
def literal (s : String) : Mem UInt8 := fun i => (ascii s).getD i 0

/-- `strlen` of the string at the beginning of `n` bytes of memory. -/
def strlen (m : Mem UInt8) (n : Nat) : Nat := (m.cstr 0 0 n).length

/-- `strncmp`: the first difference in at most `n` bytes. -/
def strncmp (a b : Mem UInt8) : Nat → Int
  | 0 => 0
  | n + 1 =>
    if a 0 ≠ b 0 then (a 0).toNat - (b 0).toNat
    else if a 0 = 0 then 0
    else strncmp (a.drop 1) (b.drop 1) n

end Embed.CString
