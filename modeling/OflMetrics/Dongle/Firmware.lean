/-
The firmware of the dongle, `ofldongle.c`: the user commands, the timer
interrupt, and `main`'s loop, which prints received packets and collects
command lines.

The functions log what they print and what they ask of the radio. The boot is
in `OflMetrics.Boot`. Of `dump_hex`, `selftest_xtea`, `dump_config` and
`cmd_info`, which only print, the log holds the call.
-/
import OflMetrics.Boot
import OflMetrics.Clock
import OflMetrics.CommandLine
import OflMetrics.Dongle.Command

namespace OflMetrics

open Embed Embed.CString Embed.Printf

def DUMP_HUMAN : UInt8 := 1
def DUMP_HEX : UInt8 := 2

/-- `MAX_CHAN`; `MIN_CHAN` is zero. -/
def MAX_CHAN : UInt8 := 15

/-- The globals and the locals of `main`. -/
structure Dongle where
  myconfig : ConfigT
  curChan : UInt8
  hopSpd : UInt8
  monitorMode : UInt8
  clock : Clock
  cntr : UInt32
  /-- `pk`, the paquet all received packets are decoded to. -/
  pk : Paquet
  buffer : CommandBuffer

/-- What the firmware does, as far as it is seen outside, and the commands it
takes. -/
inductive DongleEvent where
  | print (text : List UInt8)
  | radio (e : RadioEvent)
  | processCmd (cmd : List UInt8)
  | dumpHex (p : Packet) (pk : Paquet)
  | selftestXtea
  | dumpConfig (c : ConfigT)
  | cmdInfo
  | checkMaca
  /-- `free_packet`, of the buffer at a handle. -/
  | freePacket (p : Nat)
  /-- `tx_packet`, of the buffer at a handle, with what is in it. -/
  | txPacket (p : Nat) (pk : Packet)

/-- A part of the firmware. -/
abbrev Firmware := Traced DongleEvent

/-- `printf` of a text in parts. -/
def printf (parts : List (List UInt8)) : Firmware PUnit := tell [.print parts.flatten]

/-- `%d` -/
def percentD (i : Int) : List UInt8 := (decInt i).map Char.toUInt8

/-- `%02X` of a byte -/
def percent02X (b : UInt8) : List UInt8 := (hex2 b).map Char.toUInt8

/-! ## `dump_human` -/

/-- The first four bytes of an address, as `dump_human` prints them. -/
def macText (mac : Vector UInt8 8) : List UInt8 :=
  percent02X mac[0] ++ percent02X mac[1] ++ percent02X mac[2] ++ percent02X mac[3]

/-- The string at `pk->data`: `crc` is the next field of the structure, and
what lies behind is not the paquet's. -/
def Paquet.text (pk : Paquet) : List UInt8 := (pk.data.store paquetMaxDatasize pk.crc).cstr 0 0 256

/-- The line of `dump_human`. -/
def dumpHuman (pk : Paquet) : List UInt8 :=
  [ascii "RX: ", macText pk.smac, ascii "|", macText pk.dmac, ascii "|", percent02X pk.datalen, ascii "|", pk.text,
    ascii "|\r\n"].flatten

/-! ## `process_cmd` -/

/-- What `:send` depends on: the buffer `get_free_packet` returns, and what the
memory of the local `pq` held. -/
structure SendEnv where
  freePacket : Option (Nat × Packet)
  stack : Paquet

/-- `pq` as `:send` fills it; only four bytes of either address are set. -/
def sendPaquet (myconfig : ConfigT) (stack : Paquet) (cmd2 : List UInt8) : Paquet :=
  { stack with
    smac := Vector.ofFn fun i => if i < 4 then myconfig.smac[i] else stack.smac[i]
    dmac := Vector.ofFn fun i => if i < 4 then 0xFF else stack.dmac[i]
    datalen := UInt8.ofNat cmd2.length
    data := stack.data.copy 0 (fun i => cmd2.getD i 0) cmd2.length
    crc := .replicate 2 0 }

/-- The branch of `:send`. -/
def sendCmd (s : Dongle) (cmd cmd2 : List UInt8) (env : SendEnv) : Firmware PUnit := do
  printf [ascii "TX : '", cmd, ascii "', size ", percentD cmd2.length, ascii "\r\n"]
  match env.freePacket with
  | some (p, pk) =>
    let (ret, pq, pk) := (paquet2packet (sendPaquet s.myconfig env.stack cmd2) pk).val
    if ret ≠ 0 then
      tell [.dumpHex pk pq]
      tell [.txPacket p pk]
    else printf [ascii "ERR: Can't create paquet_t\r\n"]
  | none => printf [ascii "ERR: No free TX packets\r\n"]

/-- The help text. -/
def helpTexts : List (List UInt8) :=
  [ascii ":dump_hex        Dump incoming packets (hex form)\r\n",
    ascii ":dump_human      Dump incoming packets (human-readable)\r\n",
    ascii ":show_config     Dump current config\r\n",
    ascii ":channel XX      Force radio channel to XX\r\n",
    ascii ":chan_hop XX     Force channel hopping every 5<XX<180 seconds\r\n",
    ascii ":selftest_xtea   Test XTEA Encoding/Decoding\r\n",
    ascii ":send <CMD>      Send the command\r\n",
    ascii ":info            Informations\r\n"]

/-- The branches of `process_cmd`. -/
def carryOut (s : Dongle) (cmd : List UInt8) (env : SendEnv) : Command → Firmware Dongle
  | .stopDump => do
    printf [ascii "packet-dump stopped.\r\n"]
    return { s with monitorMode := 0 }
  | .help => do
    tell (helpTexts.map .print)
    return s
  | .dumpHex => do
    printf [ascii "OK dump_hex mode <press any key to stop>\r\n"]
    return { s with monitorMode := DUMP_HEX }
  | .dumpHuman => do
    printf [ascii "OK dump_human mode <press any key to stop>\r\n"]
    return { s with monitorMode := DUMP_HUMAN }
  | .channel ch => do
    tell [.radio (.setChannel ch)]
    let curChan := UInt8.ofInt ch
    printf [ascii "OK channel set to ", percentD curChan.toNat]
    return { s with curChan }
  | .chanhop tmp => do
    let hopSpd := if tmp > 5 ∧ tmp < 180 then UInt8.ofInt tmp else s.hopSpd
    printf [ascii "OK channel hopping every ", percentD hopSpd.toNat, ascii " s"]
    return { s with hopSpd }
  | .selftestXtea => do
    printf [ascii "OK running selftest_xtea\r\n"]
    tell [.selftestXtea]
    return s
  | .showConfig => do
    printf [ascii "OK showing configuration\r\n"]
    tell [.dumpConfig s.myconfig]
    return s
  | .send cmd2 => do
    sendCmd s cmd cmd2 env
    return s
  | .info => do
    printf [ascii "OK \r\n"]
    tell [.cmdInfo]
    return s
  | .unknown => do
    printf [ascii "ERROR: Unknown command\r\n"]
    return s

/-- `process_cmd`. -/
def processCmd (s : Dongle) (cmd : List UInt8) (env : SendEnv) : Firmware Dongle :=
  carryOut s cmd env (parseCmd s.monitorMode cmd)

/-! ## `tmr0_isr` -/

/-- The channel after `curChan`. -/
def nextChan (curChan : UInt8) : UInt8 :=
  let curChan := curChan + 1
  if curChan > MAX_CHAN then 0 else curChan

/-- Time to hop! -/
def hop (s : Dongle) : Firmware Dongle :=
  if s.hopSpd > 0 ∧ s.clock.clockS % s.hopSpd = 0 then do
    let curChan := nextChan s.curChan
    tell [.radio (.setChannel curChan.toNat)]
    printf [ascii "Channel hopping to ch:", percentD curChan.toNat, ascii "\r\n"]
    return { s with curChan }
  else return s

/-- `tmr0_isr`. -/
def tmr0Isr (s : Dongle) : Firmware Dongle := do
  let s := { s with cntr := s.cntr + 1, clock := s.clock.count }
  let s ← hop s
  return { s with clock := s.clock.carry }

/-! ## `main` -/

/-- The part of the loop for a received packet. -/
def receivePacket (s : Dongle) : Option (Nat × Packet) → Firmware Dongle
  | none => return s
  | some (p, packet) => do
    -- The result of `packet2paquet` is not looked at.
    let (_, pk) := (packet2paquet packet s.pk).val
    let s := { s with pk }
    tell (if s.monitorMode = DUMP_HUMAN then [.print (dumpHuman pk)]
      else if s.monitorMode = DUMP_HEX then [.dumpHex packet pk] else [])
    tell [.freePacket p]
    return s

/-- The part of the loop for a character from the serial port. -/
def receiveChar (s : Dongle) : Option (UInt8 × SendEnv) → Firmware Dongle
  | none => return s
  | some (c, env) =>
    let (buffer, action) := s.buffer.receive c
    match action with
    | .tooLong => do
      printf [ascii "Command too long\r\n"]
      return { s with buffer }
    | .process cmd => do
      printf [ascii "\r\n"]
      tell [.processCmd cmd]
      let s ← processCmd s cmd env
      return { s with buffer }
    | .echo c => do
      printf [[c]]
      return { s with buffer }

/-- What the outside delivers in one turn of the loop. -/
structure LoopInput where
  /-- `rx_packet()`: the handle of a buffer, and what is in it, or `NULL`. -/
  rxPacket : Option (Nat × Packet)
  /-- A character from `uart1_getc()`, if there is one. -/
  serial : Option (UInt8 × SendEnv)

/-- One turn of the loop. -/
def dongleLoop (s : Dongle) (i : LoopInput) : Firmware Dongle := do
  tell [.checkMaca]
  let s ← receivePacket s i.rxPacket
  receiveChar s i.serial

/-- The loop, for the inputs of its turns. -/
def dongleRun (s : Dongle) : List LoopInput → Firmware Dongle
  | [] => return s
  | i :: is => do
    let s ← dongleLoop s i
    dongleRun s is

/-- `main` before the loop, with a configuration in use and what the memory of
its locals held. -/
def Dongle.boot (myconfig : ConfigT) (pk : Paquet) (stack : Mem UInt8) : Dongle where
  myconfig := myconfig
  curChan := 0
  hopSpd := 0
  monitorMode := 0
  clock := .zero
  cntr := 0
  pk := pk
  buffer := .boot stack

/-- A dongle on a configuration like the factory's. -/
def sampleDongle : Dongle := .boot sampleConfig .zero fun _ => 0

/-- No buffer is free, and the stack is zeroed. -/
def noBuffer : SendEnv := { freePacket := none, stack := .zero }

/-- Turns of the loop in which only characters arrive. -/
def typed (cs : List (UInt8 × SendEnv)) : List LoopInput :=
  cs.map fun b => { rxPacket := none, serial := some b }

end OflMetrics
