/-
The stored configuration of `ofllibs/utils.c`: `write_config` lays a
`config_t` out in 30 bytes of NVM, `read_config` reads it back.

The NVM calls are libmc1322x's and are a parameter (`Nvm`) over a device
state; each returns its error code, zero for success. The 30-byte images are
locals: `stack` is what their memory held before.
-/
import OflMetrics.Embed.Mem

namespace OflMetrics

open Embed

/-- `NVM_CONFIG_POS`. -/
def NVM_CONFIG_POS : Nat := 0x1e000

/-- `NVM_CONFIG_SZ`. -/
def NVM_CONFIG_SZ : Nat := 30

/-- `config_t`. -/
structure ConfigT where
  signature : Vector UInt8 2
  smac : Vector UInt8 8
  span : Vector UInt8 2
  txpower : UInt8
  radiochan : UInt8
  capa : Vector UInt8 2
  securekey : Vector UInt8 32
  lowUptimeFlag : UInt8
  lowUptimeCounter : UInt8
  deriving DecidableEq

/-- The signature of a configuration, 0xF00F when present. -/
def CONFIG_SIGNATURE : Vector UInt8 2 := #v[0xF0, 0x0F]

/-- The PAN F00D, low byte first. -/
def PAN_ID : Vector UInt8 2 := #v[0x0D, 0xF0]

/-- A configuration like the factory's, with a key. -/
def sampleConfig : ConfigT :=
  { signature := CONFIG_SIGNATURE, smac := #v[0, 0, 0, 0, 0, 0, 0, 0x99], span := PAN_ID, txpower := 0x12,
    radiochan := 0, capa := #v[4, 0], securekey := .replicate 32 0xAA, lowUptimeFlag := 0, lowUptimeCounter := 0 }

/-- The NVM calls, over device states `σ` and NVM types `τ`. -/
structure Nvm (σ τ : Type) where
  /-- `nvm_detect(gNvmInternalInterface_c, &type)` -/
  detect : σ → Int × τ × σ
  /-- `nvm_setsvar` -/
  setsvar : Nat → σ → σ
  /-- `nvm_read(gNvmInternalInterface_c, type, buf, pos, len)` -/
  read : τ → Mem UInt8 → Nat → Nat → σ → Int × Mem UInt8 × σ
  /-- `nvm_erase(gNvmInternalInterface_c, type, sectors)` -/
  erase : τ → Nat → σ → Int × σ
  /-- `nvm_write(gNvmInternalInterface_c, type, buf, pos, len)` -/
  write : τ → Mem UInt8 → Nat → Nat → σ → Int × σ

variable {σ τ : Type}

/-- `read_config`. -/
def readConfig (nvm : Nvm σ τ) (stack : Mem UInt8) (t : ConfigT) (s : σ) : Int8 × ConfigT × σ :=
  let (err, type, s) := nvm.detect s
  if err ≠ 0 then (-1, t, s) else
  let s := nvm.setsvar 0 s
  let (err, buf, s) := nvm.read type stack NVM_CONFIG_POS NVM_CONFIG_SZ s
  if err ≠ 0 then (-2, t, s) else
  if buf 0 ≠ 0xF0 ∧ buf 1 ≠ 0x0F then (-3, t, s) else
  let t := { t with signature := #v[buf 0, buf 1] }
  let t := { t with smac := buf.load 2 8 }
  let t := { t with radiochan := buf 10 }
  let t := { t with txpower := buf 11 }
  let t := { t with capa := #v[buf 12, buf 13] }
  -- `memcpy(buf+14, t->securekey, 8)`: into the image, not out of it.
  let buf := buf.store 14 (t.securekey.take 8)
  let t := { t with lowUptimeFlag := buf 22 }
  let t := { t with lowUptimeCounter := buf 23 }
  (1, t, s)

/-- The image `write_config` builds in its local buffer. -/
def configImage (stack : Mem UInt8) (t : ConfigT) : Mem UInt8 :=
  let buf := Function.update stack 0 (byte0 t.signature)
  let buf := Function.update buf 1 (byte0 t.signature)
  let buf := Mem.store buf 2 t.smac
  let buf := Function.update buf 10 t.radiochan
  let buf := Function.update buf 11 t.txpower
  let buf := Function.update buf 12 (byte0 t.capa)
  let buf := Function.update buf 13 (byte1 t.capa)
  let buf := Mem.store buf 14 (t.securekey.take 8)
  let buf := Function.update buf 22 t.lowUptimeFlag
  Function.update buf 23 t.lowUptimeCounter

/-- `write_config`. -/
def writeConfig (nvm : Nvm σ τ) (stack : Mem UInt8) (t : ConfigT) (s : σ) : Int8 × σ :=
  let buf := configImage stack t
  let (err, type, s) := nvm.detect s
  if err ≠ 0 then (-1, s) else
  let (err, s) := nvm.erase type (1 <<< (NVM_CONFIG_POS / 4096)) s
  if err ≠ 0 then (-2, s) else
  let (err, s) := nvm.write type buf NVM_CONFIG_POS NVM_CONFIG_SZ s
  if err ≠ 0 then (-3, s) else
  (1, s)

end OflMetrics
