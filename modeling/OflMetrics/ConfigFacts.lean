/-
A configuration written and read back: what `write_config` followed by
`read_config` leaves, over any NVM that works (`Nvm.Works`).

`write_config` stores `signature[0]` twice, and `read_config` copies the key
the wrong way round, so the second signature byte and the key never come
back (`write_read_config`): no configuration survives (`config_lost`).
-/
import OflMetrics.Config

namespace OflMetrics

open Embed

variable {σ τ : Type} {nvm : Nvm σ τ} {flash : σ → Mem UInt8}

/-- Every call succeeds, a write stores its bytes, nothing between a write and
a read changes them, and a read returns them. `flash s` is the content. -/
structure Nvm.Works (nvm : Nvm σ τ) (flash : σ → Mem UInt8) : Prop where
  detect_ok : ∀ s, (nvm.detect s).1 = 0
  erase_ok : ∀ type sectors s, (nvm.erase type sectors s).1 = 0
  write_ok : ∀ type buf pos len s, (nvm.write type buf pos len s).1 = 0
  read_ok : ∀ type buf pos len s, (nvm.read type buf pos len s).1 = 0
  detect_flash : ∀ s, flash (nvm.detect s).2.2 = flash s
  setsvar_flash : ∀ n s, flash (nvm.setsvar n s) = flash s
  write_flash : ∀ type buf pos len s, flash (nvm.write type buf pos len s).2 = (flash s).copy pos buf len
  read_flash : ∀ type buf pos len s, (nvm.read type buf pos len s).2.1 = buf.copy 0 ((flash s).drop pos) len

/-- Everything of `c` that is to come back came back. -/
structure ConfigT.SurvivesAs (c : ConfigT) (ret : Int8) (t : ConfigT) : Prop where
  ret : ret = 1
  signature : t.signature = c.signature
  smac : t.smac = c.smac
  radiochan : t.radiochan = c.radiochan
  txpower : t.txpower = c.txpower
  capa : t.capa = c.capa
  securekey : t.securekey.take 8 = c.securekey.take 8
  lowUptimeFlag : t.lowUptimeFlag = c.lowUptimeFlag
  lowUptimeCounter : t.lowUptimeCounter = c.lowUptimeCounter

theorem writeConfig_works (hw : nvm.Works flash) (stack : Mem UInt8) (c : ConfigT) (s : σ) :
    (writeConfig nvm stack c s).1 = 1 ∧
      ∃ s', flash (writeConfig nvm stack c s).2 =
        (flash s').copy NVM_CONFIG_POS (configImage stack c) NVM_CONFIG_SZ := by
  simp only [writeConfig, hw.detect_ok, hw.erase_ok, hw.write_ok, ne_eq, not_true_eq_false, if_false]
  exact ⟨trivial, _, hw.write_flash ..⟩

/-- A read of `NVM_CONFIG_SZ` bytes gives the image in flash. -/
theorem read_image (hw : nvm.Works flash) {image : Mem UInt8} {s s' : σ} (type : τ) (stack : Mem UInt8)
    (h : flash s = (flash s').copy NVM_CONFIG_POS image NVM_CONFIG_SZ) {i : Nat} (hi : i < NVM_CONFIG_SZ) :
    (nvm.read type stack NVM_CONFIG_POS NVM_CONFIG_SZ s).2.1 i = image i := by
  rw [hw.read_flash, h]
  simp [Mem.copy, Mem.drop, hi]

/-- The fields of a configuration in its image. -/
structure ImageOf (c : ConfigT) (image : Mem UInt8) : Prop where
  signature₀ : image 0 = byte0 c.signature
  /-- `write_config` stores the first signature byte twice. -/
  signature₁ : image 1 = byte0 c.signature
  smac : image.load 2 8 = c.smac
  radiochan : image 10 = c.radiochan
  txpower : image 11 = c.txpower
  capa₀ : image 12 = byte0 c.capa
  capa₁ : image 13 = byte1 c.capa
  lowUptimeFlag : image 22 = c.lowUptimeFlag
  lowUptimeCounter : image 23 = c.lowUptimeCounter

theorem configImage_imageOf (stack : Mem UInt8) (c : ConfigT) : ImageOf c (configImage stack c) where
  signature₀ := by simp [configImage, Mem.store]
  signature₁ := by simp [configImage, Mem.store]
  smac := by
    refine Mem.load_eq_of_slice ?_
    simp (disch := decide) only [configImage, Mem.slice_update_other, Mem.slice_store_other, Mem.slice_store_self]
  radiochan := by simp [configImage, Mem.store]
  txpower := by simp [configImage, Mem.store]
  capa₀ := by simp [configImage, Mem.store]
  capa₁ := by simp [configImage, Mem.store]
  lowUptimeFlag := by simp [configImage]
  lowUptimeCounter := by simp [configImage]

/-- An image is what its first 24 bytes are. -/
theorem ImageOf.congr {c : ConfigT} {image image' : Mem UInt8} (h : ImageOf c image)
    (heq : ∀ i, i < NVM_CONFIG_SZ → image' i = image i) : ImageOf c image' where
  signature₀ := (heq 0 (by decide)).trans h.signature₀
  signature₁ := (heq 1 (by decide)).trans h.signature₁
  smac := by
    rw [← h.smac]
    refine Mem.load_eq_of_slice ?_
    rw [Mem.load_toList]
    exact Mem.slice_congr fun i hi => heq (2 + i) (by simp only [NVM_CONFIG_SZ]; omega)
  radiochan := (heq 10 (by decide)).trans h.radiochan
  txpower := (heq 11 (by decide)).trans h.txpower
  capa₀ := (heq 12 (by decide)).trans h.capa₀
  capa₁ := (heq 13 (by decide)).trans h.capa₁
  lowUptimeFlag := (heq 22 (by decide)).trans h.lowUptimeFlag
  lowUptimeCounter := (heq 23 (by decide)).trans h.lowUptimeCounter

/-- `read_config` of the image of a configuration that starts with F0. -/
theorem readConfig_image (hw : nvm.Works flash) (stack : Mem UInt8) (c t : ConfigT) (s : σ)
    (h0 : byte0 c.signature = 0xF0)
    (himage : ImageOf c (nvm.read (nvm.detect s).2.1 stack NVM_CONFIG_POS NVM_CONFIG_SZ
      (nvm.setsvar 0 (nvm.detect s).2.2)).2.1) :
    (readConfig nvm stack t s).1 = 1 ∧
      (readConfig nvm stack t s).2.1 =
        { c with signature := #v[0xF0, 0xF0], span := t.span, securekey := t.securekey } := by
  have hcapa : #v[c.capa[0], c.capa[1]] = c.capa := by
    ext i hi
    rcases i with _ | _ | i
    · rfl
    · rfl
    · omega
  simp only [readConfig, hw.detect_ok, hw.read_ok, himage.signature₀, himage.signature₁, himage.smac,
    himage.radiochan, himage.txpower, himage.capa₀, himage.capa₁, h0, hcapa, ne_eq, not_true_eq_false, false_and,
    if_false, Mem.store, Nat.reduceLeDiff, Nat.reduceSub, himage.lowUptimeFlag,
    himage.lowUptimeCounter]
  exact ⟨trivial, rfl⟩

/-- What a write followed by a read leaves in `t`: all of `c` but the second
signature byte, the PAN (not stored) and the key. -/
theorem write_read_config (hw : nvm.Works flash) (c t : ConfigT) (stack stack' : Mem UInt8) (s : σ)
    (hsig : c.signature = #v[0xF0, 0x0F]) :
    let written := (writeConfig nvm stack c s).2
    (readConfig nvm stack' t written).1 = 1 ∧
      (readConfig nvm stack' t written).2.1 =
        { c with signature := #v[0xF0, 0xF0], span := t.span, securekey := t.securekey } := by
  intro written
  obtain ⟨-, s', hflash⟩ := writeConfig_works hw stack c s
  have hset : flash (nvm.setsvar 0 (nvm.detect written).2.2) =
      (flash s').copy NVM_CONFIG_POS (configImage stack c) NVM_CONFIG_SZ := by
    rw [hw.setsvar_flash, hw.detect_flash]
    exact hflash
  refine readConfig_image hw stack' c t written (by rw [hsig]; rfl) ?_
  exact (configImage_imageOf stack c).congr fun i hi => read_image hw _ stack' hset hi

/-- **No configuration survives a reboot**: the second signature byte comes
back as F0, and the key is the one `t` held. -/
theorem config_lost {σ τ : Type} {nvm : Nvm σ τ} {flash : σ → Mem UInt8} (hw : nvm.Works flash) (c t : ConfigT)
    (stack stack' : Mem UInt8) (s : σ) (hsig : c.signature = #v[0xF0, 0x0F]) :
    let written := writeConfig nvm stack c s
    let read := readConfig nvm stack' t written.2
    written.1 = 1 ∧ read.1 = 1 ∧ read.2.1.signature = #v[0xF0, 0xF0] ∧ read.2.1.securekey = t.securekey ∧
      ¬ c.SurvivesAs read.1 read.2.1 := by
  intro written read
  obtain ⟨hret, ht⟩ := write_read_config hw c t stack stack' s hsig
  have hread : read.2.1 = { c with signature := #v[0xF0, 0xF0], span := t.span, securekey := t.securekey } := ht
  refine ⟨(writeConfig_works hw stack c s).1, hret, by rw [hread], by rw [hread], fun h => ?_⟩
  have hsame : read.2.1.signature = c.signature := h.signature
  rw [hread, hsig] at hsame
  have hne : (#v[0xF0, 0xF0] : Vector UInt8 2) ≠ #v[0xF0, 0x0F] := by decide
  exact hne hsame

/-! ## A flash that works -/

/-- A flash whose state is its content. -/
def flashNvm : Nvm (Mem UInt8) Unit where
  detect := fun s => (0, (), s)
  setsvar := fun _ s => s
  read := fun _ buf pos len s => (0, buf.copy 0 (s.drop pos) len, s)
  erase := fun _ _ _ => (0, fun _ => 0xFF)
  write := fun _ buf pos len s => (0, s.copy pos buf len)

theorem flashNvm_works : flashNvm.Works id :=
  ⟨fun _ => rfl, fun _ _ _ => rfl, fun _ _ _ _ _ => rfl, fun _ _ _ _ _ => rfl, fun _ => rfl, fun _ _ => rfl,
    fun _ _ _ _ _ => rfl, fun _ _ _ _ _ => rfl⟩

theorem config_lost_sample :
    (readConfig flashNvm (fun _ => 0) sampleConfig
      (writeConfig flashNvm (fun _ => 0) sampleConfig fun _ => 0xFF).2).2.1.signature = #v[0xF0, 0xF0] :=
  (config_lost flashNvm_works sampleConfig sampleConfig (fun _ => 0) (fun _ => 0) (fun _ => 0xFF) (by decide)).2.2.1

/-- Read into a structure whose key is zeroed, the sample comes back with neither
its signature nor its key. -/
theorem sampleConfig_changed :
    let read := readConfig flashNvm (fun _ => 0) { sampleConfig with securekey := .replicate 32 0 }
      (writeConfig flashNvm (fun _ => 0) sampleConfig fun _ => 0xFF).2
    read.2.1.signature ≠ sampleConfig.signature ∧
      read.2.1.securekey.take 8 ≠ sampleConfig.securekey.take 8 := by
  intro read
  have hread := (write_read_config flashNvm_works sampleConfig { sampleConfig with securekey := .replicate 32 0 }
    (fun _ => 0) (fun _ => 0) (fun _ => 0xFF) (by decide)).2
  rw [show read.2.1 = _ from hread]
  exact ⟨by decide, by decide⟩

end OflMetrics
