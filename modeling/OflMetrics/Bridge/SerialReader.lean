/-
The bridge's end of the serial line: `serialib::ReadString`,
`Packet::initialize` and `SerialDeviceThread::run`, a state machine that
opens the port, asks for the dump and listens.

What `ReadChar` meets while `ReadString` waits is a list of events, so every
schedule of arrivals is one; where the list ends in the middle of a call, the
thread is still in it. `QString(const char*)` is Qt's, and a parameter:
`ReadsAscii` is what the proofs use of it.
-/
import Mathlib.Data.List.Count
import OflMetrics.Bridge.PacketProcessor
import OflMetrics.Embed.CString
import OflMetrics.Embed.Mem

namespace OflMetrics

open Embed Embed.CString

/-! ## `serialib::ReadString` -/

/-- What `ReadChar` meets. -/
inductive SerialEvent where
  /-- A byte; `late` when the timeout is over once it is read. -/
  | byte (c : UInt8) (late : Bool)
  /-- The timeout, before a byte. -/
  | timeout
  /-- `read` fails. -/
  | failed

/-- `ReadString` with a timeout, with `nbBytes` bytes read so far: what it
returns, the memory at `String`, and the events after it. -/
def readString (finalChar : UInt8) (maxNbBytes : Nat) (string : Mem UInt8) (nbBytes : Nat) :
    List SerialEvent → Option (Int × Mem UInt8 × List SerialEvent)
  | [] => if nbBytes < maxNbBytes then none else some (-3, string, [])
  | e :: es =>
    if nbBytes < maxNbBytes then
      match e with
      | .byte c late =>
        let string := Function.update string nbBytes c
        if c = finalChar then some (nbBytes + 1, Function.update string (nbBytes + 1) 0, es)
        else if late then some (0, Function.update string (nbBytes + 1) 0, es)
        else readString finalChar maxNbBytes string (nbBytes + 1) es
      | .timeout => some (0, Function.update string nbBytes 0, es)
      | .failed => some (-2, string, es)
    else some (-3, string, e :: es)

/-! ## `Packet::initialize` -/

/-- What `QString(const char*)` makes of a string, in Latin-1 and in UTF-8:
ASCII characters in front stay what they are, and a `|` is always that byte. -/
structure ReadsAscii (decode : List UInt8 → List Char) : Prop where
  ascii : ∀ a, (∀ b ∈ a, b < 128) → decode a = a.map Char.ofUInt8
  front : ∀ a c, (∀ b ∈ a, b < 128) → a.map Char.ofUInt8 <+: decode (a ++ c)
  bars : ∀ s, (decode s).count '|' = s.count 0x7C

/-- `Packet()`. -/
def BridgePacket.new : BridgePacket := ⟨[], [], []⟩

section

variable (decode : List UInt8 → List Char)

/-- `Packet::initialize`, with the string at `pData`. -/
def packetInitialize (p : BridgePacket) (pData : List UInt8) : Bool × BridgePacket :=
  let liste := (decode pData).splitOn '|'
  if h : liste.length > 3 then (true, { p with srcNodeId := liste[0], dstNodeId := liste[1], msg := liste[3] })
  else (false, p)

/-! ## `SerialDeviceThread::run` -/

def BUFFER_SIZE : Nat := 255

/-- The thread, what arrives on its port, what it has written to it, and the
packets it has broadcast. -/
structure SerialThread where
  state : Nat
  rxBuf : Mem UInt8
  arriving : List SerialEvent
  written : List UInt8
  broadcast : List BridgePacket

/-- What `LS.Open` and `LS.WriteString` return in a turn that calls them. -/
structure PortAnswers where
  openRet : Int
  writeRet : Int

/-- `SerialDeviceThread::readString`. -/
def SerialThread.readString (t : SerialThread) (pBuf : Mem UInt8) (pStop : UInt8) :
    Option (Int × Mem UInt8 × List SerialEvent) :=
  OflMetrics.readString pStop 128 pBuf 0 t.arriving

/-- The packets that a turn in state 3 broadcasts, by what `readString` returned. -/
def heard (ret : Int) (rxBuf : Mem UInt8) : List BridgePacket :=
  if ret > 1 then
    -- The result of `initialize` is not looked at.
    if rxBuf 0 = 0x52 ∧ rxBuf 1 = 0x58 then
      [(packetInitialize decode .new (rxBuf.cstr 0 4 (BUFFER_SIZE - 4))).2]
    else []
  else []

/-- One turn of `run`; there is no next one while `ReadString` waits. -/
def SerialThread.turn (t : SerialThread) (a : PortAnswers) : Option SerialThread :=
  match t.state with
  | 0 => some (if a.openRet ≠ 1 then t else { t with state := t.state + 1 })
  | 1 =>
    some (if a.writeRet < 0 then { t with state := 0 }
      else { t with state := t.state + 1, written := t.written ++ ascii ":dump_human\n" })
  | 2 =>
    (t.readString (t.rxBuf.fill 0 0 BUFFER_SIZE) 10).map fun (ret, rxBuf, arriving) =>
      let ok := ret > 0 ∧ ascii "OK dump_human mode" <:+: rxBuf.cstr 0 0 BUFFER_SIZE
      { t with rxBuf, arriving, state := if ok then 3 else t.state }
  | 3 =>
    (t.readString (t.rxBuf.fill 0 0 BUFFER_SIZE) 10).map fun (ret, rxBuf, arriving) =>
      { t with rxBuf, arriving, broadcast := t.broadcast ++ heard decode ret rxBuf }
  | _ => some t

/-- `run`, for some turns. -/
def SerialThread.run (t : SerialThread) : List PortAnswers → SerialThread
  | [] => t
  | a :: as =>
    match t.turn decode a with
    | some t => t.run as
    | none => t

end

/-- A thread that listens. -/
def listening (arriving : List SerialEvent) : SerialThread :=
  { state := 3, rxBuf := fun _ => 0, arriving, written := [], broadcast := [] }

/-- Turns for `n` calls. -/
def turns (n : Nat) : List PortAnswers := List.replicate n { openRet := 1, writeRet := 1 }

/-! ## Latin-1 -/

/-- `QString::fromLatin1`. -/
def latin1 (s : List UInt8) : List Char := s.map Char.ofUInt8

theorem ofUInt8_inj {b c : UInt8} (h : Char.ofUInt8 b = Char.ofUInt8 c) : b = c := by
  have hval : b.toUInt32.toNat = c.toUInt32.toNat := congrArg Char.toNat h
  rw [UInt8.toNat_toUInt32, UInt8.toNat_toUInt32] at hval
  exact UInt8.toNat_inj.mp hval

theorem latin1_readsAscii : ReadsAscii latin1 where
  ascii _ _ := rfl
  front a c _ := by
    rw [latin1, List.map_append]
    exact List.prefix_append _ _
  bars s := by
    have hbar : '|' = Char.ofUInt8 0x7C := rfl
    exact hbar ▸ List.count_map_of_injective s Char.ofUInt8 (fun _ _ => ofUInt8_inj) 0x7C

end OflMetrics
