/-
The calibration record of the BME280, from its registers.

`Layout` is how the registers hold a record, as the sensor's register map says
it. `read_calibration_data` gets every field of it back but the two of twelve
bits, whose high byte it shifts without its sign; so it reads the record
exactly when neither of them is negative (`calibration_iff`).
-/
import OflMetrics.Bme280.Driver

namespace OflMetrics

open Embed Embed.Traced

/-- The word at a register, low byte first. -/
def word (regs : UInt8 → UInt8) (r : UInt8) : Nat := (regs r).toNat + 256 * (regs (r + 1)).toNat

/-- The registers hold a record: unsigned and signed words, bytes, and two
fields of twelve bits that share the low and high half of 0xE5. -/
structure Layout (regs : UInt8 → UInt8) (c : Bmx280Calibration) : Prop where
  unsigned : ∀ e ∈ [(0x88, c.digT1), (0x8E, c.digP1)], word regs e.1 = e.2.toNat
  signed : ∀ e ∈ [(0x8A, c.digT2), (0x8C, c.digT3), (0x90, c.digP2), (0x92, c.digP3), (0x94, c.digP4),
    (0x96, c.digP5), (0x98, c.digP6), (0x9A, c.digP7), (0x9C, c.digP8), (0x9E, c.digP9), (0xE1, c.digH2)],
    (word regs e.1 : Int) = e.2.toInt % 2 ^ 16
  bytes : regs 0xA1 = c.digH1 ∧ regs 0xE3 = c.digH3
  h4 : (16 * (regs 0xE4).toNat + (regs 0xE5).toNat % 16 : Int) = c.digH4.toInt % 2 ^ 12
  h5 : (16 * (regs 0xE6).toNat + (regs 0xE5).toNat / 16 : Int) = c.digH5.toInt % 2 ^ 12
  h6 : ((regs 0xE7).toNat : Int) = c.digH6.toInt % 2 ^ 8
  h4Range : -2 ^ 11 ≤ c.digH4.toInt ∧ c.digH4.toInt < 2 ^ 11
  h5Range : -2 ^ 11 ≤ c.digH5.toInt ∧ c.digH5.toInt < 2 ^ 11

/-! ## Bytes -/

theorem toNat_low (b : UInt8) : (b &&& 0x0F).toNat = b.toNat % 16 := by
  rw [UInt8.toNat_and]
  exact Nat.and_two_pow_sub_one_eq_mod b.toNat 4

theorem toNat_high (b : UInt8) : ((b &&& 0xF0) >>> 4).toNat = b.toNat / 16 := by
  have hlt : b.toNat / 2 ^ 4 < 2 ^ 4 := Nat.div_lt_of_lt_mul b.toNat_lt
  have hhigh : (0xF0 : UInt8).toNat >>> 4 = 2 ^ 4 - 1 := rfl
  rw [UInt8.toNat_shiftRight, UInt8.toNat_and, show (4 : UInt8).toNat % 8 = 4 from rfl, Nat.shiftRight_and_distrib, hhigh,
    Nat.and_two_pow_sub_one_eq_mod, Nat.shiftRight_eq_div_pow, Nat.mod_eq_of_lt hlt]
  rfl

/-- A number of 16 bits is the `int16_t` it is congruent to. -/
theorem ofNat_eq {n : Nat} {v : Int16} (h : (n : Int) = v.toInt % 2 ^ 16) : Int16.ofNat n = v := by
  have hlo := v.le_toInt
  have hhi := v.toInt_lt
  have hsize : (Int16.size : Int) = 65536 := rfl
  refine Int16.toInt_inj.mp ?_
  rw [Int16.toInt_ofNat', Int.bmod_def, hsize]
  split
  · omega
  · omega

/-- Twelve bits and no sign: the number is read when it is not negative. -/
theorem ofNat_eq_iff {n : Nat} {v : Int16} (h : (n : Int) = v.toInt % 2 ^ 12)
    (hrange : -2 ^ 11 ≤ v.toInt ∧ v.toInt < 2 ^ 11) : Int16.ofNat n = v ↔ 0 ≤ v.toInt := by
  have hsmall : (Int16.ofNat n).toInt = n := by
    have hsize : (Int16.size : Int) = 65536 := rfl
    rw [Int16.toInt_ofNat', Int.bmod_def, hsize]
    split
    · omega
    · omega
  rw [← Int16.toInt_inj, hsmall]
  omega

theorem toInt8_eq {b : UInt8} {v : Int8} (h : (b.toNat : Int) = v.toInt % 2 ^ 8) : b.toInt8 = v := by
  have hlo := v.le_toInt
  have hhi := v.toInt_lt
  have hb := b.toNat_lt
  have hread : b.toInt8.toInt = (b.toNat : Int).bmod (2 ^ 8) := BitVec.toInt_eq_toNat_bmod b.toBitVec
  refine Int8.toInt_inj.mp ?_
  rw [hread, Int.bmod_def]
  split
  · omega
  · omega

/-! ## The record -/

/-- What the driver's buffer holds: the registers from 0x88 on. -/
theorem buffer_apply (regs : UInt8 → UInt8) (stack : Mem UInt8) {i : Nat} (hi : i < 96) :
    (readU8Reg (burst regs 0x88) (stack.fill 0 0 128) 96).2 i = regs (0x88 + UInt8.ofNat i) := by
  simp [readU8Reg, Mem.copy, burst, hi]

section

variable {regs : UInt8 → UInt8} {c : Bmx280Calibration} {buffer : Mem UInt8}

theorem getUint16Le_eq {offset : Nat} {r : UInt8} {v : UInt16} (hlow : buffer offset = regs r)
    (hhigh : buffer (offset + 1) = regs (r + 1)) (h : word regs r = v.toNat) : getUint16Le buffer offset = v := by
  have hlo := (regs r).toNat_lt
  have hhi := (regs (r + 1)).toNat_lt
  rw [getUint16Le, hlow, hhigh, ← UInt16.toNat_inj, UInt16.toNat_add, UInt16.toNat_shiftLeft, UInt8.toNat_toUInt16,
    UInt8.toNat_toUInt16, show (8 : UInt16).toNat % 16 = 8 from rfl, Nat.shiftLeft_eq]
  rw [word] at h
  omega

theorem getInt16Le_eq {offset : Nat} {r : UInt8} {v : Int16} (hlow : buffer offset = regs r)
    (hhigh : buffer (offset + 1) = regs (r + 1)) (h : (word regs r : Int) = v.toInt % 2 ^ 16) :
    getInt16Le buffer offset = v := by
  rw [getInt16Le, hlow, hhigh, Nat.shiftLeft_eq]
  refine ofNat_eq (h ▸ ?_)
  rw [word]
  omega

/-- A buffer with the registers of a record is decoded to that record when the
two fields of twelve bits are not negative. -/
theorem decodeCalibration_iff (hbuffer : ∀ i, i < 96 → buffer i = regs (0x88 + UInt8.ofNat i)) (h : Layout regs c) :
    decodeCalibration buffer = c ↔ 0 ≤ c.digH4.toInt ∧ 0 ≤ c.digH5.toInt := by
  have hunsigned := h.unsigned
  have hsigned := h.signed
  simp only [List.forall_mem_cons, List.not_mem_nil, false_implies, implies_true, and_true] at hunsigned hsigned
  obtain ⟨ht1, hp1⟩ := hunsigned
  obtain ⟨ht2, ht3, hp2, hp3, hp4, hp5, hp6, hp7, hp8, hp9, hh2⟩ := hsigned
  have hh4 : (decodeCalibration buffer).digH4 = c.digH4 ↔ 0 ≤ c.digH4.toInt := by
    refine ofNat_eq_iff ?_ h.h4Range
    rw [hbuffer (0xE4 - 0x88) (by decide), hbuffer (0xE5 - 0x88) (by decide), toNat_low, Nat.shiftLeft_eq, ← h.h4]
    push_cast
    exact congrArg (· + _) (Int.mul_comm _ _)
  have hh5 : (decodeCalibration buffer).digH5 = c.digH5 ↔ 0 ≤ c.digH5.toInt := by
    refine ofNat_eq_iff ?_ h.h5Range
    rw [hbuffer (0xE6 - 0x88) (by decide), hbuffer (0xE5 - 0x88) (by decide), toNat_high, Nat.shiftLeft_eq, ← h.h5]
    push_cast
    exact congrArg (· + _) (Int.mul_comm _ _)
  rw [← hh4, ← hh5]
  constructor
  · intro heq
    rw [heq]
    exact ⟨rfl, rfl⟩
  · rintro ⟨h4, h5⟩
    have hnext {r : UInt8} {i : Nat} (hr : 0x88 + UInt8.ofNat i = r) (hi : i < 95) :
        buffer i = regs r ∧ buffer (i + 1) = regs (r + 1) := by
      rw [hbuffer i (by omega), hbuffer (i + 1) (by omega), UInt8.ofNat_add, ← UInt8.add_assoc, hr]
      exact ⟨rfl, rfl⟩
    have hu {r : UInt8} {i : Nat} {v : UInt16} (hr : 0x88 + UInt8.ofNat i = r) (hi : i < 95)
        (hword : word regs r = v.toNat) : getUint16Le buffer i = v :=
      getUint16Le_eq (hnext hr hi).1 (hnext hr hi).2 hword
    have hs {r : UInt8} {i : Nat} {v : Int16} (hr : 0x88 + UInt8.ofNat i = r) (hi : i < 95)
        (hword : (word regs r : Int) = v.toInt % 2 ^ 16) : getInt16Le buffer i = v :=
      getInt16Le_eq (hnext hr hi).1 (hnext hr hi).2 hword
    exact Bmx280Calibration.ext (hu rfl (by decide) ht1) (hs rfl (by decide) ht2) (hs rfl (by decide) ht3)
      (hu rfl (by decide) hp1) (hs rfl (by decide) hp2) (hs rfl (by decide) hp3) (hs rfl (by decide) hp4)
      (hs rfl (by decide) hp5) (hs rfl (by decide) hp6) (hs rfl (by decide) hp7) (hs rfl (by decide) hp8)
      (hs rfl (by decide) hp9) ((hbuffer 25 (by decide)).trans h.bytes.1) (hs rfl (by decide) hh2)
      ((hbuffer 91 (by decide)).trans h.bytes.2) h4 h5 (toInt8_eq (by rw [hbuffer _ (by decide)]; exact h.h6))

end

/-- **When the calibration is read right**: when neither field of twelve bits is negative. -/
theorem calibration_iff {regs : UInt8 → UInt8} {c : Bmx280Calibration} (h : Layout regs c) (stack : Mem UInt8)
    (cal : Bmx280Calibration) :
    val (readCalibrationData regs stack cal) = (1, c) ↔ 0 ≤ c.digH4.toInt ∧ 0 ≤ c.digH5.toInt := by
  rw [← decodeCalibration_iff (fun i hi => buffer_apply regs stack hi) h]
  have hval : val (readCalibrationData regs stack cal) =
      (1, decodeCalibration (readU8Reg (burst regs 0x88) (stack.fill 0 0 128) 96).2) := rfl
  rw [hval, Prod.mk.injEq]
  exact and_iff_right rfl

/-- A record that is all zero. -/
def Bmx280Calibration.zero : Bmx280Calibration where
  digT1 := 0
  digT2 := 0
  digT3 := 0
  digP1 := 0
  digP2 := 0
  digP3 := 0
  digP4 := 0
  digP5 := 0
  digP6 := 0
  digP7 := 0
  digP8 := 0
  digP9 := 0
  digH1 := 0
  digH2 := 0
  digH3 := 0
  digH4 := 0
  digH5 := 0
  digH6 := 0

/-- A record with negative words, both fields of twelve bits at their largest and a negative `dig_H6`. -/
def sampleCalibration : Bmx280Calibration where
  digT1 := 28485
  digT2 := -26435
  digT3 := -1000
  digP1 := 36477
  digP2 := -10685
  digP3 := 3024
  digP4 := -2855
  digP5 := 140
  digP6 := -7
  digP7 := 15500
  digP8 := -14600
  digP9 := 6000
  digH1 := 75
  digH2 := -365
  digH3 := 200
  digH4 := 2047
  digH5 := 2047
  digH6 := -30

/-- Its registers, from 0x88 and from 0xE1 on; 0x5A elsewhere. -/
def sampleRegs (r : UInt8) : UInt8 :=
  if r < 0xE1 then
    [0x45, 0x6F, 0xBD, 0x98, 0x18, 0xFC, 0x7D, 0x8E, 0x43, 0xD6, 0xD0, 0x0B, 0xD9, 0xF4, 0x8C, 0x00,
      0xF9, 0xFF, 0x8C, 0x3C, 0xF8, 0xC6, 0x70, 0x17, 0x5A, 0x4B].getD (r.toNat - 0x88) 0x5A
  else [0x93, 0xFE, 0xC8, 0x7F, 0xFF, 0x7F, 0xE2].getD (r.toNat - 0xE1) 0x5A

theorem calibration_sample :
    val (readCalibrationData sampleRegs (fun i => UInt8.ofNat i) .zero) = (1, sampleCalibration) := by
  have hlayout : Layout sampleRegs sampleCalibration :=
    ⟨List.forall_iff_forall_mem.mp (by decide), List.forall_iff_forall_mem.mp (by decide), by decide, by decide,
      by decide, by decide, by decide, by decide⟩
  exact (calibration_iff hlayout (fun i => UInt8.ofNat i) .zero).mpr ⟨by decide, by decide⟩

/-- The registers of a record with -1 in `dig_H4`. -/
def minusOneRegs (r : UInt8) : UInt8 := if r = 0xE4 then 0xFF else if r = 0xE5 then 0x0F else 0

/-- It is read as 4095. -/
theorem minusOne_misread :
    Layout minusOneRegs { Bmx280Calibration.zero with digH4 := -1 } ∧
      val (readCalibrationData minusOneRegs (fun _ => 0) .zero) ≠ (1, { Bmx280Calibration.zero with digH4 := -1 }) :=
  ⟨⟨List.forall_iff_forall_mem.mp (by decide), List.forall_iff_forall_mem.mp (by decide), by decide, by decide,
    by decide, by decide, by decide, by decide⟩, by decide⟩

end OflMetrics
