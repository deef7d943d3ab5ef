/-
What the dongle sends over its serial port: the text of everything its
firmware prints, `selftest_xtea` and `dump_config` included. The notice that
`cmd_info` prints is a parameter.

The self-test shows what it is there to show: the line of the decrypted
message is the line of the message (`selftestXtea_eq`).
-/
import OflMetrics.Dongle.HexDump
import OflMetrics.XteaFacts

namespace OflMetrics

open Embed Embed.CString Embed.Traced

/-! ## `selftest_xtea` -/

/-- `cipher_key` -/
def cipherKey : Vector UInt8 16 := Vector.ofFn fun i => (ascii "0123456789ABCDEF").getD i 0

/-- A line of the self-test: `len` characters of `message`, in hexadecimal and as they are. -/
def selftestLine (label : String) (message : Mem UInt8) (len : Nat) : List UInt8 :=
  ascii label ++ ((message.slice 0 len).flatMap fun c => percent02X c ++ ascii "'" ++ [c] ++ ascii "' ") ++ ascii "\r\n"

/-- `selftest_xtea`, of a text put in `message`. -/
def selftestXtea (text : List UInt8) : Traced (Access XteaArray) (List UInt8) := do
  let message : Mem UInt8 := fun i => text.getD i 0
  let skey := xteaSetup cipherKey none
  let len := (message.cstr 0 0 100).length
  let plain := selftestLine "plain:    " message len
  let (message, skey) ← xteaEncrypt message 0 0 len skey
  let crypted := selftestLine "crypted:  " message len
  let skey := xteaRestart skey
  let (message, _) ← xteaDecrypt message 0 0 len skey
  return plain ++ crypted ++ selftestLine "decrypted:" message len

/-- The text of `selftest_xtea`. -/
def selftestText : List UInt8 := val (selftestXtea (ascii "Ceci est un test"))

/-- The last line of the self-test shows the message it began with. -/
theorem selftestXtea_eq (text : List UInt8) : ∃ crypted,
    val (selftestXtea text) =
      selftestLine "plain:    " (fun i => text.getD i 0) (Mem.cstr 0 (fun i => text.getD i 0) 0 100).length ++ crypted ++
        selftestLine "decrypted:" (fun i => text.getD i 0) (Mem.cstr 0 (fun i => text.getD i 0) 0 100).length := by
  generalize hlen : (Mem.cstr 0 (fun i => text.getD i 0) 0 100).length = len
  have henc := (xteaEncrypt_at cipherKey none len (fun i => text.getD i 0) (.inl (Nat.le_refl 0)) 0).1
  rw [xteaAt_zero] at henc
  have hdec := (xteaEncrypt_at cipherKey none len
    (Mem.mask (· ^^^ ·) (xteaStream cipherKey none) (fun i => text.getD i 0) 0 0 len 0) (.inl (Nat.le_refl 0)) 0).1
  rw [xteaAt_zero, Mem.mask_mask _ _ xor_xor] at hdec
  refine ⟨selftestLine "crypted:  "
    (Mem.mask (· ^^^ ·) (xteaStream cipherKey none) (fun i => text.getD i 0) 0 0 len 0) len, ?_⟩
  simp only [selftestXtea, hlen, val_bind, val_pure, henc, xteaRestart_at, xteaDecrypt, hdec]

/-! ## `dump_config` -/

/-- Bytes as `%02X`, one after the other. -/
def percent02Xs (bs : List UInt8) : List UInt8 := bs.flatMap percent02X

/-- `dump_config` -/
def dumpConfigText (c : ConfigT) : List UInt8 :=
  [ascii "- signature: 0x", percent02Xs c.signature.toList, ascii "\r\n",
    ascii "- txpower: 0x", percent02X c.txpower, ascii ", radiochan: 0x", percent02X c.radiochan, ascii "\r\n",
    ascii "- low_uptime_flag: 0x", percent02X c.lowUptimeFlag, ascii ", low_uptime_counter: 0x",
    percent02X c.lowUptimeCounter, ascii "\r\n", ascii "- span:0x", percent02Xs c.span.toList, ascii "\r\n",
    ascii "- smac:0x", percent02Xs c.smac.toList, ascii "\r\n capa:0x", percent02Xs c.capa.toList,
    -- The loop stops before the last byte of the first eight.
    ascii "- securekey:0x", (c.securekey.toList.take 7).flatMap (fun b => percent02X b ++ ascii " "),
    ascii "\r\n"].flatten

/-! ## The serial port -/

/-- What an event puts on the serial port, with the notice of `cmd_info`. -/
def DongleEvent.serial (notice : List UInt8) (info : RxInfo) : DongleEvent → List UInt8
  | .print text => text
  | .dumpHex p pk => dumpHexText p info pk
  | .selftestXtea => selftestText
  | .dumpConfig c => dumpConfigText c
  | .cmdInfo => notice
  | .radio _ | .processCmd _ | .checkMaca | .freePacket _ | .txPacket _ _ => []

/-- What a log puts on the serial port. -/
def serialOutput (notice : List UInt8) (info : RxInfo) (l : List DongleEvent) : List UInt8 :=
  l.flatMap (·.serial notice info)

@[simp] theorem serialOutput_append (notice : List UInt8) (info : RxInfo) (l l' : List DongleEvent) :
    serialOutput notice info (l ++ l') = serialOutput notice info l ++ serialOutput notice info l' :=
  List.flatMap_append

end OflMetrics
