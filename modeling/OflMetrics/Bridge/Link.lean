/-
The dongle and the bridge's thread, and the serial line between them.

Either side runs at its own pace: a step of the whole is a turn of one of the
loops, an interrupt of the dongle, or something that happens on the line, in
any order. The dongle's interrupts print between two turns of its loop, or
anywhere in what a turn prints (`interrupted`). What one side writes is on its
way until the other takes it, byte by byte and in order; while the bridge has
the port closed, it takes nothing, and the bytes that come first may be lost
(`lose`). A byte can be lost on the open line as well (`drop`). A call of
`ReadString` that waits goes on once more has arrived.
-/
import OflMetrics.Bridge.SerialReader
import OflMetrics.Dongle.Output
import OflMetrics.Embed.Run

namespace OflMetrics

open Embed Embed.CString Embed.Traced

/-- `kbi4_isr` of the dongle. -/
def dongleKbi4Isr : Firmware PUnit := printf [ascii "O\n"]

/-- `kbi7_isr` of the dongle. -/
def dongleKbi7Isr : Firmware PUnit := printf [ascii "N\n"]

/-- The interrupts that print. `tmr0_isr` is not one of them: `main` leaves its
timer off. -/
inductive Kbi where
  | kbi4
  | kbi7

def Kbi.isr : Kbi → Firmware PUnit
  | .kbi4 => dongleKbi4Isr
  | .kbi7 => dongleKbi7Isr

/-- `serialib::WriteString`, when the port accepts `accepted` bytes: what it
returns, and what is on the line. -/
def writeString (string : List UInt8) (accepted : Nat) : Int × List UInt8 :=
  (if (string.take accepted).length ≠ string.length then -1 else 1, string.take accepted)

/-- Both sides, and what is on its way. -/
structure Link where
  dongle : Dongle
  thread : SerialThread
  toDongle : List UInt8
  toBridge : List UInt8

/-- A step of the whole. -/
inductive LinkStep where
  /-- A turn of the dongle's loop; `canGet` says whether it finds a byte on its port. -/
  | dongle (rxPacket : Option (Nat × Packet)) (canGet : Bool) (env : SendEnv) (info : RxInfo)
  /-- A turn with interrupts inside it, each after so many more bytes that the turn prints. -/
  | interrupted (rxPacket : Option (Nat × Packet)) (canGet : Bool) (env : SendEnv) (info : RxInfo)
    (isrs : List (Nat × Kbi))
  /-- The interrupts between two turns, and a tick of the timer if it runs. -/
  | tmr0
  | kbi4
  | kbi7
  /-- A byte arrives at the bridge. -/
  | deliver (late : Bool)
  /-- While the port is closed, the first of the bytes that were not read is lost. -/
  | lose
  /-- The first of the bytes on the line to the bridge is lost, though the port is open. -/
  | drop
  /-- The timeout of the bridge's `ReadString`. -/
  | timeout
  /-- A `read` of the bridge fails. -/
  | failed
  /-- A turn of the thread: what `Open` returns, and how much a write takes. -/
  | thread (openRet : Int) (accepted : Nat)

section

variable (decode : List UInt8 → List Char) (notice : List UInt8)

/-- What is printed when interrupts print inside a text. -/
def printedBetween (text : List UInt8) : List (Nat × Kbi) → List UInt8
  | [] => text
  | i :: isrs =>
    text.take i.1 ++ (serialOutput notice ⟨0, 0⟩ (log i.2.isr) ++ printedBetween (text.drop i.1) isrs)

/-- The bytes the thread writes in its next turn. -/
def SerialThread.writes (t : SerialThread) (accepted : Nat) : List UInt8 :=
  if t.state = 1 then (writeString (ascii ":dump_human\n") accepted).2 else []

namespace Link

/-- A turn of the dongle's loop, with interrupts. -/
def interruptedTurn (l : Link) (rxPacket : Option (Nat × Packet)) (canGet : Bool) (env : SendEnv) (info : RxInfo)
    (isrs : List (Nat × Kbi)) : Link :=
  let serial := if canGet then l.toDongle.head?.map fun c => (c, env) else none
  let r := dongleLoop l.dongle { rxPacket, serial }
  { l with
    dongle := val r
    toDongle := if canGet then l.toDongle.tail else l.toDongle
    toBridge := l.toBridge ++ printedBetween notice (serialOutput notice info (log r)) isrs }

/-- A turn without. -/
def dongleTurn (l : Link) (rxPacket : Option (Nat × Packet)) (canGet : Bool) (env : SendEnv) (info : RxInfo) : Link :=
  l.interruptedTurn notice rxPacket canGet env info []

/-- A turn of the thread, unless it waits. -/
def threadTurn (l : Link) (openRet : Int) (accepted : Nat) : Link :=
  match l.thread.turn decode { openRet, writeRet := (writeString (ascii ":dump_human\n") accepted).1 } with
  | none => l
  | some t => { l with thread := t, toDongle := l.toDongle ++ l.thread.writes accepted }

/-- An event for the bridge's `ReadString`. -/
def arrive (l : Link) (e : SerialEvent) : Link :=
  { l with thread := { l.thread with arriving := l.thread.arriving ++ [e] } }

/-- A byte that arrives. -/
def deliver (l : Link) (late : Bool) : Link :=
  match l.toBridge with
  | [] => l
  | c :: cs => { l.arrive (.byte c late) with toBridge := cs }

/-- What is left when the first of the bytes is lost. -/
def lose (l : Link) : Link :=
  match l.thread.arriving with
  | [] => { l with toBridge := l.toBridge.tail }
  | _ :: es => { l with thread := { l.thread with arriving := es } }

/-- An interrupt of the dongle that only prints. -/
def printed (l : Link) (isr : Firmware PUnit) : Link :=
  { l with toBridge := l.toBridge ++ serialOutput notice ⟨0, 0⟩ (log isr) }

/-- One step. -/
def step (l : Link) : LinkStep → Link
  | .dongle rxPacket canGet env info => l.dongleTurn notice rxPacket canGet env info
  | .interrupted rxPacket canGet env info isrs => l.interruptedTurn notice rxPacket canGet env info isrs
  | .tmr0 =>
    { l with
      dongle := val (tmr0Isr l.dongle)
      toBridge := l.toBridge ++ serialOutput notice ⟨0, 0⟩ (log (tmr0Isr l.dongle)) }
  | .kbi4 => l.printed notice dongleKbi4Isr
  | .kbi7 => l.printed notice dongleKbi7Isr
  | .deliver late => if l.thread.state = 0 then l else l.deliver late
  | .lose => if l.thread.state = 0 then l.lose else l
  | .drop => { l with toBridge := l.toBridge.tail }
  | .timeout => l.arrive .timeout
  | .failed => l.arrive .failed
  | .thread openRet accepted => l.threadTurn decode openRet accepted

end Link

end

/-- The thread before its first turn. -/
def SerialThread.new (rxBuf : Mem UInt8) : SerialThread :=
  { state := 0, rxBuf, arriving := [], written := [], broadcast := [] }

/-- A dongle in any state, with no command begun, and a bridge that starts. -/
structure Link.Starts (l : Link) : Prop where
  buffer : l.dongle.buffer.Holds []
  thread : ∃ rxBuf, l.thread = .new rxBuf
  toDongle : l.toDongle = []
  toBridge : l.toBridge = []

end OflMetrics
