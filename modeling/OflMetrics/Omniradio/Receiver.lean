/-
The 433 MHz receiver of `oflomniradio.c`: the edge interrupt `kbi7_isr`, the
decoder `data_process` it calls, and the loop of `main` that prints the
decoded messages.

The interrupt is a function of the receiver's globals and the timer count it
reads; it logs the ring elements and the `msg_buf` bytes it touches and the
pairs it reports as errors. The main loop is a step of its own (`drainStep`),
one turn of its `for` at a time, since interrupts come between its turns.
-/
import OflMetrics.RingBuffer

namespace OflMetrics

open Embed

/-- `PRECISION`, in percent. -/
def PRECISION : Int := 50

/-- `LOLO(x, y)`. -/
def LOLO (x y : Int) : Int := (x * (100 - y)).tdiv 100

/-- `HIHI(x, y)`. -/
def HIHI (x y : Int) : Int := (x * (100 + y)).tdiv 100

/-- `cnt2us(A)`. -/
def cnt2us (a : Int) : Int := (10000 * a).tdiv 1875

/-- `HE_BITLEN`. -/
def HE_BITLEN : Nat := 64

/-- The size of `msg_buf`. -/
def msgBufSize : Nat := 1000

/-- The globals the interrupt works on. -/
structure Receiver where
  transPrev : Int16
  transCur : Int16
  bEdgeDirection : UInt8
  record : UInt8
  ring : RingBufS
  msgBuf : Mem Char
  msgCnt : UInt16

/-- What the interrupt logs. -/
inductive RxEvent where
  | ring (a : Access RingBuf)
  /-- `msg_buf[i]` written. -/
  | msgWrite (i : Nat)
  /-- The line "Error: d0,d1". -/
  | error (d0 d1 : Int16)
  deriving DecidableEq, Repr

/-! ## `data_process` -/

/-- A high of the short length. -/
def HighPulse (d : Int16) : Prop := LOLO 275 PRECISION < d.toInt ∧ d.toInt < HIHI 275 PRECISION

/-- A low of the length `us`. -/
def LowPulse (us : Int) (d : Int16) : Prop := -(HIHI us PRECISION) < d.toInt ∧ d.toInt < -(LOLO us PRECISION)

instance (d : Int16) : Decidable (HighPulse d) := inferInstanceAs (Decidable (_ ∧ _))
instance (us : Int) (d : Int16) : Decidable (LowPulse us d) := inferInstanceAs (Decidable (_ ∧ _))

/-- The character of one pair. -/
def heChar (d0 d1 : Int16) : Char :=
  if HighPulse d0 ∧ LowPulse 275 d1 then '1'
  else if HighPulse d0 ∧ LowPulse 1225 d1 then '0'
  else '?'

/-- The loop of `data_process` from `i` on. -/
def dataProcessLoop (ring : RingBufS) (msgCnt : UInt16) : Nat → Nat → Mem Char → Traced RxEvent (Mem Char)
  | 0, _, msgBuf => return msgBuf
  | n + 1, i, msgBuf => do
    let d0 ← Traced.mapLog .ring (ringGet ring (UInt16.ofNat (i * 2)))
    let d1 ← Traced.mapLog .ring (ringGet ring (UInt16.ofNat (i * 2 + 1)))
    let r := heChar d0 d1
    tell [.msgWrite (100 * msgCnt.toNat + i)]
    let msgBuf := Function.update msgBuf (100 * msgCnt.toNat + i) r
    tell (if r = '?' ∧ i > 0 then [.error d0 d1] else [])
    dataProcessLoop ring msgCnt n (i + 1) msgBuf

/-- `data_process`. -/
def dataProcess (s : Receiver) : Traced RxEvent Receiver := do
  let msgBuf ← dataProcessLoop s.ring s.msgCnt HE_BITLEN 0 s.msgBuf
  tell [.msgWrite (100 * s.msgCnt.toNat + HE_BITLEN)]
  let msgBuf := Function.update msgBuf (100 * s.msgCnt.toNat + HE_BITLEN) '\x00'
  return { s with msgBuf, msgCnt := s.msgCnt + 1 }

/-! ## `kbi7_isr` -/

/-- The first part of `kbi7_isr`: the interval since the last edge, signed by
the level it was at, narrowed to 16 bits. -/
def capture (s : Receiver) (delta : UInt16) : Receiver :=
  let s := { s with transPrev := s.transCur }
  if s.bEdgeDirection = 0 then
    { s with bEdgeDirection := 1, transCur := Int16.ofInt (cnt2us delta.toNat) }
  else if s.bEdgeDirection = 1 then
    { s with bEdgeDirection := 0, transCur := Int16.ofInt (-(cnt2us delta.toNat)) }
  else s

/-- Its second part: the start pattern sets the countdown. -/
def searchStart (s : Receiver) : Receiver :=
  if s.record = 0 then
    if HighPulse s.transPrev ∧ LowPulse 2675 s.transCur then { s with record := UInt8.ofNat (HE_BITLEN * 2) } else s
  else s

/-- Its third part: the interval is pushed while the countdown runs. -/
def recordEdge (s : Receiver) : Traced RxEvent Receiver :=
  if s.record > 0 then do
    let ring ← Traced.mapLog .ring (ringPush s.ring s.transCur)
    return { s with ring, record := s.record - 1 }
  else return s

/-- Its last part: the ring is decoded and emptied when the countdown is at 1. -/
def processRing (s : Receiver) : Traced RxEvent Receiver :=
  if s.record = 1 then do
    let s ← dataProcess s
    return { s with ring := ringReset s.ring }
  else return s

/-- `kbi7_isr`, for the timer count `delta`. -/
def kbi7Isr (s : Receiver) (delta : UInt16) : Traced RxEvent Receiver := do
  let s := capture s delta
  let s := searchStart s
  let s ← recordEdge s
  processRing s

/-! ## `main` -/

/-- The globals as `main` sets them before the loop; the others are zero. -/
def Receiver.boot : Receiver where
  transPrev := 0
  transCur := 0
  bEdgeDirection := 0
  record := 0
  ring := (ringInit { buf := fun _ => 0, head := 0, tail := 0, count := 0, size := 0 } 1024).2
  msgBuf := fun _ => '\x00'
  msgCnt := 0

/-- The firmware: the interrupt's globals, where `main` is (`none`: outside
the drain loop, `some j`: at the test `j < msg_cnt`), and the lines it
printed, each a letter and a message. -/
structure Omniradio where
  rx : Receiver
  pc : Option Nat
  out : List (Char × List Char)

def Omniradio.boot : Omniradio := { rx := .boot, pc := none, out := [] }

/-- The string `putstr(msg_buf + 100*j)` prints. -/
def slotText (msgBuf : Mem Char) (j : Nat) : List Char := Mem.cstr '\x00' msgBuf (100 * j) (msgBufSize - 100 * j)

/-- The next step of `main`'s drain loop. -/
def drainStep (m : Omniradio) : Omniradio :=
  match m.pc with
  | none => if m.rx.msgCnt > 0 then { m with pc := some 0 } else m
  | some j =>
    if j < m.rx.msgCnt.toNat then
      { m with
        out := m.out ++ [(Char.ofNat ('A'.toNat + j), slotText m.rx.msgBuf j)]
        rx := { m.rx with msgCnt := m.rx.msgCnt - 1 }
        pc := some (j + 1) }
    else
      { m with pc := none }

/-- What happens to the firmware: an edge, at a timer count, or a step of the
main loop. -/
inductive OmniStep where
  | edge (delta : UInt16)
  | drain
  deriving DecidableEq, Repr

def omniStep (m : Omniradio) : OmniStep → Omniradio
  | .edge delta => { m with rx := (kbi7Isr m.rx delta).val }
  | .drain => drainStep m

end OflMetrics
