/-
How exact is the humidity of the BME280?

`bme280_read_humidity` multiplies the level of the raw value with a gain of
second degree in `t_fine`, takes a square off, and clamps, in integers of 32
bits that lose bits at ten places. As long as the sensor is between -87 and 117
degrees and the factors have the size they are meant to have, the reading is at
most 0.05 percent from what the same formula gives without rounding
(`humidity_near`), and it is never over 100 percent (`bme280ReadHumidity_le`).
-/
import OflMetrics.Bme280.Pressure

namespace OflMetrics

open Embed Embed.SignedWord Embed.Traced

/-! ## The formula in integers -/

/-- The 16 bits of the raw humidity. -/
def raw16 (regs : Mem UInt8) : Nat := 256 * (regs 6).toNat + (regs 7).toNat

section

variable (cal : Bmx280Calibration) (v adcH : Int)

/-- The raw value less its offset. -/
def humidityLevel : Int := adcH * 2 ^ 14 - cal.digH4.toInt * 2 ^ 20 - cal.digH5.toInt * v

/-- The two factors of the second degree. -/
def humiditySlopes : Int := (v * cal.digH6.toInt) / 2 ^ 10 * ((v * cal.digH3.toNat) / 2 ^ 11 + 32768)

/-- What the level is multiplied with, before the shift. -/
def humidityGain : Int := (humiditySlopes cal v / 2 ^ 10 + 2097152) * cal.digH2.toInt

def humidityProduct : Int := (humidityLevel cal v adcH + 2 ^ 14) / 2 ^ 15 * ((humidityGain cal v + 2 ^ 13) / 2 ^ 14)

/-- The square taken off. -/
def humidityCorrected (x : Int) : Int := x - (x / 2 ^ 15 * (x / 2 ^ 15) / 2 ^ 7 * cal.digH1.toNat) / 2 ^ 4

/-- What is returned of it. -/
def humidityReading (x : Int) : Int := 100 * (min (max x 0) 419430400 / 2 ^ 12) / 2 ^ 10

/-- The sensor is in its range, and the factors are. -/
structure HumidityFits : Prop where
  fine : |v| ≤ 2 ^ 19
  offset : 0 ≤ cal.digH4.toInt ∧ cal.digH4.toInt < 2 ^ 11
  slope : FitsIn 32 (cal.digH5.toInt * v)
  level : |humidityLevel cal v adcH| ≤ 2 ^ 29
  slopes : FitsIn 32 (humiditySlopes cal v)
  factor : |cal.digH2.toInt| ≤ 2 ^ 9
  gain : |humidityGain cal v| ≤ 2 ^ 30

end

/-! ## What the words hold -/

theorem raw16_lt (regs : Mem UInt8) : raw16 regs < 2 ^ 16 := by
  have h6 := (regs 6).toNat_lt
  have h7 := (regs 7).toNat_lt
  rw [raw16]
  omega

theorem toInt_raw16 (regs : Mem UInt8) :
    (((regs 6).toUInt32 <<< 8) ||| (regs 7).toUInt32).toInt32.toInt = raw16 regs := by
  have h6 := (regs 6).toNat_lt
  have h7 := (regs 7).toNat_lt
  have hhigh : ((regs 6).toUInt32 <<< 8).toNat = (regs 6).toNat <<< 8 := by
    rw [UInt32.toNat_shiftLeft, UInt8.toNat_toUInt32]
    exact Nat.mod_eq_of_lt (show (regs 6).toNat <<< 8 < 2 ^ 32 by omega)
  have hor : (((regs 6).toUInt32 <<< 8) ||| (regs 7).toUInt32).toNat = raw16 regs := by
    rw [UInt32.toNat_or, hhigh, UInt8.toNat_toUInt32, ← Nat.shiftLeft_add_eq_or_of_lt h7, raw16]
    omega
  have hlt := raw16_lt regs
  rw [toInt_toInt32 (by omega), hor]

theorem bounded_toUInt32 (b : UInt8) : Bounded 255 b.toUInt32.toInt32 b.toNat := by
  have hb := b.toNat_lt
  have hnat : b.toUInt32.toNat = b.toNat := UInt8.toNat_toUInt32 b
  refine ⟨?_, abs_le.mpr ⟨by omega, by omega⟩⟩
  show b.toUInt32.toInt32.toInt = b.toNat
  rw [toInt_toInt32 (by omega), hnat]

variable {cal : Bmx280Calibration} {v adcH : Int} {var1 word : Int32}

theorem bounded_toInt32 (x : Int8) : Bounded (2 ^ 7) x.toInt32 x.toInt := by
  have hlow := x.le_toInt
  have hhigh := x.toInt_lt
  exact ⟨Int8.toInt_toInt32 x, abs_le.mpr ⟨hlow, hhigh.le⟩⟩

theorem HumidityFits.abs_level_le (h : HumidityFits cal v adcH) : |(humidityLevel cal v adcH + 2 ^ 14) / 2 ^ 15| ≤ 2 ^ 14 + 1 := by
  have hsum := (abs_add_le (humidityLevel cal v adcH) (2 ^ 14)).trans (add_le_add_left h.level _)
  exact abs_ediv_le (hsum.trans (by norm_num))

theorem HumidityFits.abs_gain_le (h : HumidityFits cal v adcH) : |(humidityGain cal v + 2 ^ 13) / 2 ^ 14| ≤ 2 ^ 16 + 1 := by
  have hsum := (abs_add_le (humidityGain cal v) (2 ^ 13)).trans (add_le_add_left h.gain _)
  exact abs_ediv_le (hsum.trans (by norm_num))

theorem HumidityFits.abs_product_le (h : HumidityFits cal v adcH) : |humidityProduct cal v adcH| ≤ (2 ^ 14 + 1) * (2 ^ 16 + 1) := by
  rw [humidityProduct, abs_mul]
  exact mul_le_mul h.abs_level_le h.abs_gain_le (abs_nonneg _) (by norm_num)

theorem HumidityFits.bounded_level (h : HumidityFits cal v adcH) (hv : Bounded (2 ^ 19) var1 v) (hword : Holds word adcH)
    (hadc : 0 ≤ adcH ∧ adcH < 2 ^ 16) :
    Bounded (2 ^ 14 + 1) ((((word <<< 14) - (cal.digH4.toInt32 <<< 20) - (cal.digH5.toInt32 * var1)) + 16384) >>> 15)
      ((humidityLevel cal v adcH + 2 ^ 14) / 2 ^ 15) := by
  obtain ⟨hlow, hhigh⟩ := h.offset
  have h4 : Holds cal.digH4.toInt32 cal.digH4.toInt := Int16.toInt_toInt32 cal.digH4
  have h5 : Holds cal.digH5.toInt32 cal.digH5.toInt := Int16.toInt_toInt32 cal.digH5
  have hraw := hword.shiftLeft 14 (by decide) ⟨by omega, by omega⟩
  have hoffset := h4.shiftLeft 20 (by decide) ⟨by omega, by omega⟩
  have hdiff := (hraw.sub hoffset ⟨by omega, by omega⟩).sub (h5.mul hv.holds h.slope) (.of_abs h.level (by norm_num))
  have hhalf : Bounded (2 ^ 14) (16384 : Int32) (2 ^ 14) := ⟨rfl, le_of_eq (abs_of_pos (by norm_num))⟩
  have hsum := Bounded.add ⟨hdiff, h.level⟩ hhalf (by norm_num)
  exact ⟨hsum.holds.shiftRight 15 (by decide), h.abs_level_le⟩

theorem HumidityFits.bounded_gain (h : HumidityFits cal v adcH) (hv : Bounded (2 ^ 19) var1 v) :
    Bounded (2 ^ 16 + 1) (((((((var1 * cal.digH6.toInt32) >>> 10) * (((var1 * cal.digH3.toUInt32.toInt32) >>> 11) + 32768)) >>> 10) +
      2097152) * cal.digH2.toInt32 + 8192) >>> 14) ((humidityGain cal v + 2 ^ 13) / 2 ^ 14) := by
  have h2 : Holds cal.digH2.toInt32 cal.digH2.toInt := Int16.toInt_toInt32 cal.digH2
  have hfull : Bounded (2 ^ 15) (32768 : Int32) 32768 := ⟨rfl, le_of_eq (abs_of_pos (by norm_num))⟩
  have hmid : Bounded (2 ^ 21) (2097152 : Int32) 2097152 := ⟨rfl, le_of_eq (abs_of_pos (by norm_num))⟩
  have hhalf : Bounded (2 ^ 13) (8192 : Int32) (2 ^ 13) := ⟨rfl, le_of_eq (abs_of_pos (by norm_num))⟩
  have hfirst := (hv.mul (bounded_toInt32 cal.digH6) (by norm_num)).holds.shiftRight 10 (by decide)
  have hlinear := hv.mul (bounded_toUInt32 cal.digH3) (by norm_num)
  have hsecond : Bounded (2 ^ 16) _ _ := Bounded.shiftRight (k := 11) ⟨hlinear.holds, hlinear.le.trans (by norm_num)⟩ (by norm_num)
  have hslopes : Bounded (2 ^ 21 * 2 ^ 10) _ _ :=
    ⟨hfirst.mul (hsecond.add hfull (by norm_num)).holds h.slopes, by have hle := h.slopes.abs_le; unfold humiditySlopes at hle; omega⟩
  have hsum := (hslopes.shiftRight (by norm_num)).add hmid (by norm_num)
  have hgain := Bounded.add ⟨hsum.holds.mul h2 (.of_abs h.gain (by norm_num)), h.gain⟩ hhalf (by norm_num)
  exact ⟨hgain.holds.shiftRight 14 (by decide), h.abs_gain_le⟩

theorem bounded_corrected (cal : Bmx280Calibration) {x : Int32} {m : Int} (hx : Bounded ((2 ^ 14 + 1) * (2 ^ 16 + 1)) x m) :
    Bounded (2 ^ 30 + 2 ^ 28) (x - (((((x >>> 15) * (x >>> 15)) >>> 7) * cal.digH1.toUInt32.toInt32) >>> 4)) (humidityCorrected cal m) := by
  have hshort : Bounded (2 ^ 15 + 3) (x >>> 15) (m / 2 ^ 15) :=
    Bounded.shiftRight (k := 15) ⟨hx.holds, hx.le.trans (by norm_num)⟩ (by norm_num)
  have hsquare := hshort.mul hshort (by norm_num)
  have hcut : Bounded (2 ^ 23 + 1537) _ _ := Bounded.shiftRight (k := 7) ⟨hsquare.holds, hsquare.le.trans (by norm_num)⟩ (by norm_num)
  have hprod := hcut.mul (bounded_toUInt32 cal.digH1) (by norm_num)
  have hoff : Bounded (2 ^ 27) _ _ := Bounded.shiftRight (k := 4) ⟨hprod.holds, hprod.le.trans (by norm_num)⟩ (by norm_num)
  have hdiff := hx.sub hoff (by norm_num)
  exact ⟨hdiff.holds, hdiff.le.trans (by norm_num)⟩

/-! ## The function -/

/-- The last lines of `bme280_read_humidity`. -/
theorem toNat_clamped (var1 : Int32) :
    let clamped := if var1 < 0 then 0 else var1
    let clamped := if clamped > 419430400 then 419430400 else clamped
    ((((100 : UInt32) * (clamped.toUInt32 >>> 12)) >>> 10).toUInt16.toNat : Int) = humidityReading var1.toInt := by
  intro low clamped
  have hlow : low.toInt = max var1.toInt 0 := by
    unfold low
    split
    · next h => exact (max_eq_right (Int32.lt_iff_toInt_lt.mp h).le).symm
    · next h => exact (max_eq_left (Int.not_lt.mp fun hneg => h (Int32.lt_iff_toInt_lt.mpr hneg))).symm
  have hclamped : clamped.toInt = min (max var1.toInt 0) 419430400 := by
    rw [← hlow]
    unfold clamped
    split
    · next h => exact (min_eq_right (Int32.lt_iff_toInt_lt.mp h).le).symm
    · next h => exact (min_eq_left (Int.not_lt.mp fun hbig => h (Int32.lt_iff_toInt_lt.mpr hbig))).symm
  have hrange : 0 ≤ clamped.toInt ∧ clamped.toInt ≤ 419430400 := by omega
  have hnat : clamped.toUInt32.toNat = clamped.toInt.toNat := Int32.toNat_toUInt32_of_le (Int32.le_iff_toInt_le.mpr hrange.1)
  have hmul : ((100 : UInt32) * (clamped.toUInt32 >>> 12)).toNat = 100 * (clamped.toUInt32.toNat >>> 12) := by
    rw [UInt32.toNat_mul, UInt32.toNat_shiftRight]
    exact Nat.mod_eq_of_lt (show 100 * (clamped.toUInt32.toNat >>> 12) < 2 ^ 32 by omega)
  have hfits : (100 * (clamped.toUInt32.toNat >>> 12)) >>> 10 < 2 ^ 16 := by omega
  rw [UInt32.toNat_toUInt16, UInt32.toNat_shiftRight, hmul, humidityReading, ← hclamped]
  refine (congrArg Nat.cast (Nat.mod_eq_of_lt hfits)).trans ?_
  show (((100 * (clamped.toUInt32.toNat >>> 12)) >>> 10 : Nat) : Int) = _
  omega

variable {s : Bme280}

/-- No reading is over 100 percent, whatever the registers and the coefficients. -/
theorem bme280ReadHumidity_le (s : Bme280) : (bme280ReadHumidity s).toNat ≤ 10000 := by
  have hle (x : Int) : humidityReading x ≤ 10000 := by
    rw [humidityReading]
    omega
  refine Int.ofNat_le.mp (le_of_eq_of_le (toNat_clamped _) (hle _))

/-- What `t_fine` is without its offset. -/
def humidityVar1 (tFine : Int32) : Int := tFine.toInt - 76800

/-- Where it fits, the function computes the formula in integers. -/
theorem toNat_bme280ReadHumidity (h : HumidityFits s.cal (humidityVar1 s.tFine) (raw16 s.measurementRegs)) :
    ((bme280ReadHumidity s).toNat : Int) =
      humidityReading (humidityCorrected s.cal (humidityProduct s.cal (humidityVar1 s.tFine) (raw16 s.measurementRegs))) := by
  have hadc : (raw16 s.measurementRegs : Int) < 2 ^ 16 := by exact_mod_cast raw16_lt s.measurementRegs
  have hoffset : Holds (76800 : Int32) 76800 := rfl
  have hfine := abs_le.mp h.fine
  have hdiff : Holds (s.tFine - 76800) (humidityVar1 s.tFine) :=
    (holds_toInt s.tFine).sub hoffset (.of_abs h.fine (by norm_num))
  have hv : Bounded (2 ^ 19) (s.tFine - 76800) (humidityVar1 s.tFine) := ⟨hdiff, h.fine⟩
  have hlevel := h.bounded_level hv (toInt_raw16 s.measurementRegs) ⟨Int.natCast_nonneg _, hadc⟩
  have hproduct := hlevel.mul (h.bounded_gain hv) (by norm_num)
  have hcorrected := (bounded_corrected s.cal hproduct).holds
  exact (toNat_clamped _).trans (congrArg humidityReading hcorrected)

/-! ## The formula without rounding -/

section

variable (cal : Bmx280Calibration) (v adcH : Int)

def exactSlopes : ℚ := (v * cal.digH6.toInt : Int) / 2 ^ 10 * ((v * cal.digH3.toNat : Int) / 2 ^ 11 + 32768)

def exactGain : ℚ := (exactSlopes cal v / 2 ^ 10 + 2097152) * cal.digH2.toInt / 2 ^ 14

/-- The square taken off. -/
def exactCorrected (x : ℚ) : ℚ := x - x / 2 ^ 15 * (x / 2 ^ 15) / 2 ^ 7 * cal.digH1.toNat / 2 ^ 4

/-- What the sensor measures, in hundredths of a percent, of the raw humidity and the `t_fine` that the temperature left. -/
def exactHumidity : ℚ :=
  min (max (exactCorrected cal (humidityLevel cal v adcH / 2 ^ 15 * exactGain cal v)) 0) 419430400 / 2 ^ 12 * 100 / 2 ^ 10

variable {cal v adcH}

theorem near_slopes (h : |v| ≤ 2 ^ 19) : Near 163840 (humiditySlopes cal v : ℚ) (exactSlopes cal v) := by
  have h6 : |v * cal.digH6.toInt| ≤ 2 ^ 16 * 2 ^ 10 := by
    have hb := (bounded_toInt32 cal.digH6).le
    rw [abs_mul]
    exact (mul_le_mul h hb (abs_nonneg _) (by norm_num)).trans (by norm_num)
  have h3 : |v * cal.digH3.toNat| ≤ 2 ^ 19 * 255 := by
    have hb := (bounded_toUInt32 cal.digH3).le
    rw [abs_mul]
    exact mul_le_mul h hb (abs_nonneg _) (by norm_num)
  have hfirst : |(((v * cal.digH6.toInt) / 2 ^ 10 : Int) : ℚ)| ≤ 2 ^ 16 := by
    rw [← Int.cast_abs]
    exact_mod_cast abs_ediv_le h6
  have hsecond : |((v * cal.digH3.toNat : Int) : ℚ) / 2 ^ 11 + 32768| ≤ 98304 := by
    have hcast : |((v * cal.digH3.toNat : Int) : ℚ)| ≤ 2 ^ 19 * 255 := by
      rw [← Int.cast_abs]
      exact_mod_cast h3
    obtain ⟨hlow, hhigh⟩ := abs_le.mp hcast
    refine abs_le.mpr ⟨?_, ?_⟩
    · linarith only [hlow]
    · linarith only [hhigh]
  have hmul := (near_shift (K := ℚ) (v * cal.digH6.toInt) 10).mul
    ((near_shift (K := ℚ) (v * cal.digH3.toNat) 11).add (Near.refl 32768)) hfirst hsecond
  have hcast : (humiditySlopes cal v : ℚ) =
      (((v * cal.digH6.toInt) / 2 ^ 10 : Int) : ℚ) * ((((v * cal.digH3.toNat) / 2 ^ 11 : Int) : ℚ) + 32768) := by
    rw [humiditySlopes]
    push_cast
    rfl
  rw [hcast]
  exact hmul.weaken (by norm_num)

theorem near_gain (hv : |v| ≤ 2 ^ 19) (h2 : |cal.digH2.toInt| ≤ 2 ^ 9) :
    Near (277 / 50) (((humidityGain cal v + 2 ^ 13) / 2 ^ 14 : Int) : ℚ) (exactGain cal v) := by
  have hfactor : |(cal.digH2.toInt : ℚ)| ≤ 2 ^ 9 := by
    rw [← Int.cast_abs]
    exact_mod_cast h2
  have hslopes : Near 163840 (humiditySlopes cal v : ℚ) (exactSlopes cal v) := near_slopes hv
  have hsum := ((hslopes.shift 10).add (Near.refl 2097152)).mul_const hfactor
  have hcast : ((((humiditySlopes cal v) / 2 ^ 10 : Int) : ℚ) + 2097152) * cal.digH2.toInt = (humidityGain cal v : ℚ) := by
    rw [humidityGain]
    push_cast
    rfl
  rw [hcast] at hsum
  exact (hsum.shift_round 13).weaken (by norm_num)

theorem near_product (h : HumidityFits cal v adcH) :
    Near 123546 (humidityProduct cal v adcH : ℚ) (humidityLevel cal v adcH / 2 ^ 15 * exactGain cal v) := by
  have hlevel : |(((humidityLevel cal v adcH + 2 ^ 14) / 2 ^ 15 : Int) : ℚ)| ≤ 2 ^ 14 + 1 := by
    rw [← Int.cast_abs]
    exact_mod_cast h.abs_level_le
  have hgain : |(((humidityGain cal v + 2 ^ 13) / 2 ^ 14 : Int) : ℚ)| ≤ 2 ^ 16 + 1 := by
    rw [← Int.cast_abs]
    exact_mod_cast h.abs_gain_le
  have hnear := near_gain h.fine h.factor
  have hmul := (near_shift_round (K := ℚ) (humidityLevel cal v adcH) 14).mul hnear hlevel (hnear.abs_meant_le hgain)
  rw [humidityProduct, Int.cast_mul]
  exact hmul.weaken (by norm_num)

theorem near_corrected (cal : Bmx280Calibration) {x : Int} {y : ℚ} (hx : |x| ≤ (2 ^ 14 + 1) * (2 ^ 16 + 1))
    (h : Near 123546 (x : ℚ) y) : Near 162510 (humidityCorrected cal x : ℚ) (exactCorrected cal y) := by
  have hsmall : |((x / 2 ^ 15 : Int) : ℚ)| ≤ 2 ^ 15 + 3 := by
    have hcut : |x / 2 ^ 15| ≤ 2 ^ 15 + 3 := abs_ediv_le (hx.trans (by norm_num))
    rw [← Int.cast_abs]
    exact_mod_cast hcut
  have hfactor : |(cal.digH1.toNat : ℚ)| ≤ 255 := by
    rw [abs_of_nonneg (Nat.cast_nonneg _)]
    exact_mod_cast Nat.le_of_lt_succ cal.digH1.toNat_lt
  have hsquare := (h.shift 15).mul_self hsmall
  rw [← Int.cast_mul] at hsquare
  have hprod := (hsquare.shift 7).mul_const hfactor
  have hcast : ((x / 2 ^ 15 * (x / 2 ^ 15) / 2 ^ 7 : Int) : ℚ) * cal.digH1.toNat =
      ((x / 2 ^ 15 * (x / 2 ^ 15) / 2 ^ 7 * cal.digH1.toNat : Int) : ℚ) := by
    push_cast
    rfl
  rw [hcast] at hprod
  rw [humidityCorrected, Int.cast_sub]
  exact (h.sub (hprod.shift 4)).weaken (by norm_num)

theorem near_humidityReading {x : Int} {y : ℚ} (h : Near 162510 (x : ℚ) y) :
    Near 5 (humidityReading x : ℚ) (min (max y 0) 419430400 / 2 ^ 12 * 100 / 2 ^ 10) := by
  have hclamp := h.clamp 0 419430400
  have hcast : min (max (x : ℚ) 0) 419430400 = ((min (max x 0) 419430400 : Int) : ℚ) := by
    push_cast
    rfl
  rw [hcast] at hclamp
  have hhundred := (hclamp.shift 12).mul_const (c := 100) (b := 100) (by norm_num)
  have hprod : ((min (max x 0) 419430400 / 2 ^ 12 : Int) : ℚ) * 100 = ((100 * (min (max x 0) 419430400 / 2 ^ 12) : Int) : ℚ) := by
    rw [Int.cast_mul, mul_comm]
    rfl
  rw [hprod] at hhundred
  exact (hhundred.shift 10).weaken (by norm_num)

end

/-! ## The reading -/

/-- **How exact the reading is**: 0.05 percent. -/
theorem humidity_near (rep : Replies) (s : Bme280) (r : Readings)
    (h : HumidityFits s.cal (humidityVar1 (val (bmx280ReadTemperature rep s)).2.tFine) (raw16 rep.data)) :
    Near 5 ((val (bme280Readings rep s r)).humidity.toNat : ℚ)
      (exactHumidity s.cal (humidityVar1 (val (bmx280ReadTemperature rep s)).2.tFine) (raw16 rep.data)) := by
  have hnear := near_humidityReading (near_corrected s.cal h.abs_product_le (near_product h))
  have hread := toNat_bme280ReadHumidity (s := (val (bmx280ReadTemperature rep s)).2) h
  have hcast : ((val (bme280Readings rep s r)).humidity.toNat : ℚ) =
      (humidityReading (humidityCorrected s.cal
        (humidityProduct s.cal (humidityVar1 (val (bmx280ReadTemperature rep s)).2.tFine) (raw16 rep.data))) : ℚ) := by
    exact_mod_cast hread
  rw [hcast]
  exact hnear

/-- The sensor at 39.6 percent. -/
def humidReplies : Replies :=
  { warmReplies with data := fun i => [0x65, 0x5A, 0xC0, 0x7E, 0xED, 0x00, 0x6E, 0x1F].getD i 0 }

/-- Its coefficients. -/
def humidSensor : Bme280 :=
  { warmSensor with cal := { warmSensor.cal with digH1 := 75, digH2 := 362, digH4 := 328, digH5 := 50, digH6 := 30 } }

theorem humidity_near_sample :
    Near 5 ((val (bme280Readings humidReplies humidSensor sampleReadings)).humidity.toNat : ℚ)
      (exactHumidity humidSensor.cal (humidityVar1 (val (bmx280ReadTemperature humidReplies humidSensor)).2.tFine)
        (raw16 humidReplies.data)) :=
  humidity_near humidReplies humidSensor sampleReadings
    ⟨by decide +kernel, by decide +kernel, by decide +kernel, by decide +kernel, by decide +kernel, by decide +kernel, by decide +kernel⟩

end OflMetrics
