/-
The ring buffer of `ofllibs/ringbuffer.c`, statement by statement, with the
elements it touches and the remainders it takes in the log.

`buf` is memory: an index past `BUFSZ` is a place behind the array (the
`head` field), which the model keeps apart from the fields.
-/
import OflMetrics.Embed.Mem

namespace OflMetrics

open Embed

/-- `BUFSZ`, the size of `ringBufS.buf`. -/
def BUFSZ : Nat := 1024

/-- `ringBufS`. -/
structure RingBufS where
  buf : Mem Int16
  head : UInt16
  tail : UInt16
  count : UInt16
  size : UInt16

/-- The one array the ring indexes. -/
inductive RingBuf where
  | buf
  deriving DecidableEq, Repr

/-- What the ring's functions log. -/
abbrev Ring := Traced (Access RingBuf)

/-- `MODULO_INC(x, y)`: counts `1..y`, not `0..y-1`. -/
def moduloInc (x y : UInt16) : Ring UInt16 := do
  tell [.rem y.toNat]
  return x % y + 1

/-- `ring_init`. -/
def ringInit (ring : RingBufS) (ringSz : UInt16) : Int × RingBufS :=
  let ring := { ring with buf := ring.buf.fill 0 0 BUFSZ, head := 0, tail := 0, count := 0, size := 0 }
  if ringSz.toNat ≤ BUFSZ then (1, { ring with size := ringSz }) else (0, ring)

/-- `ring_isempty`. -/
def ringIsempty (ring : RingBufS) : Bool := 0 == ring.count

/-- `ring_reset`. -/
def ringReset (ring : RingBufS) : RingBufS :=
  let ring := { ring with count := 0 }
  { ring with head := ring.tail }

/-- `ring_length`. -/
def ringLength (ring : RingBufS) : UInt16 := ring.count

/-- `ring_push`. -/
def ringPush (ring : RingBufS) (pVal : Int16) : Ring RingBufS := do
  let buf ← Mem.setT .buf ring.buf ring.head.toNat pVal
  let ring := { ring with buf }
  let head ← moduloInc ring.head ring.size
  let ring := { ring with head }
  if ring.count < ring.size then
    return { ring with count := ring.count + 1 }
  else
    let tail ← moduloInc ring.tail ring.size
    return { ring with tail }

/-- `ring_get`: the sum of the two 16-bit operands is an `int`. -/
def ringGet (ring : RingBufS) (pPos : UInt16) : Ring Int16 := do
  if pPos < ring.count then
    tell [.rem ring.size.toNat]
    Mem.getT .buf ring.buf ((ring.tail.toNat + pPos.toNat) % ring.size.toNat)
  else
    return 0

/-- `ring_remove_tail`. -/
def ringRemoveTail (ring : RingBufS) (nb : UInt16) : Ring RingBufS := do
  if nb < ring.count then
    tell [.rem ring.size.toNat]
    let tail := UInt16.ofNat ((ring.tail.toNat + nb.toNat) % ring.size.toNat)
    return { ring with tail, count := ring.count - nb }
  else
    return ring

end OflMetrics
