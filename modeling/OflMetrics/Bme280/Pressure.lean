/-
How exact is the pressure of the BME280?

`bmx280_read_pressure` computes a quotient of two polynomials of `t_fine` and a
correction of second degree, in integers of 64 bits, and cuts bits off at nine
places. Two of its products can be too large for the width; as long as they are
not, and the divisor has the size it is meant to have, the reading is at most
1.02 hPa from what the same formula gives without rounding (`pressure_near`).
One of that is the last division, which cuts off.
-/
import OflMetrics.Bme280.Temperature

namespace OflMetrics

open Embed Embed.SignedWord Embed.Traced

/-! ## The formula in integers -/

variable (cal : Bmx280Calibration) (v adcP : Int)

/-- `var2`, of `var1 = v`. -/
def pressureOffset : Int := v * v * cal.digP6.toInt + v * cal.digP5.toInt * 2 ^ 17 + cal.digP4.toInt * 2 ^ 35

/-- What `dig_P1` is multiplied with. -/
def pressureScale : Int := 2 ^ 47 + ((v * v * cal.digP3.toInt) / 2 ^ 8 + v * cal.digP2.toInt * 2 ^ 12)

/-- `var1` when it divides. -/
def pressureDivisor : Int := (pressureScale cal v * cal.digP1.toNat) / 2 ^ 33

/-- What it divides. -/
def pressureNumerator : Int := ((1048576 - adcP) * 2 ^ 31 - pressureOffset cal v) * 3125

/-- `p_acc` after the correction. -/
def pressureSum (p : Int) : Int :=
  (p + (cal.digP9.toInt * (p / 2 ^ 13) * (p / 2 ^ 13)) / 2 ^ 25 + (cal.digP8.toInt * p) / 2 ^ 19) / 2 ^ 8 + cal.digP7.toInt * 2 ^ 4

/-- What is returned. -/
def pressureReading : Int :=
  (pressureSum cal ((pressureNumerator cal v adcP).tdiv (pressureDivisor cal v)) / 2 ^ 8).tdiv 100

/-- The two products fit, and the divisor is large. -/
structure PressureFits : Prop where
  numerator : FitsIn 64 (pressureNumerator cal v adcP)
  product : FitsIn 64 (pressureScale cal v * cal.digP1.toNat)
  divisor : 2 ^ 28 ≤ pressureDivisor cal v

/-! ## What the words hold -/

theorem bounded_toInt64 (x : Int16) : Bounded (2 ^ 15) x.toInt64 x.toInt := by
  have hlow := x.le_toInt
  have hhigh := x.toInt_lt
  exact ⟨Int16.toInt_toInt64 x, abs_le.mpr ⟨hlow, hhigh.le⟩⟩

theorem holds_toUInt64 (x : UInt16) : Holds x.toUInt64.toInt64 x.toNat := by
  have hx := x.toNat_lt
  show x.toUInt64.toInt64.toInt = x.toNat
  rw [← Int64.toInt_toBitVec, UInt64.toBitVec_toInt64, BitVec.toInt_eq_toNat_of_lt, UInt64.toNat_toBitVec, UInt16.toNat_toUInt64]
  rw [UInt64.toNat_toBitVec, UInt16.toNat_toUInt64]
  omega

variable {cal v adcP} {var1 : Int64}

theorem bounded_offset (cal : Bmx280Calibration) (hv : Bounded (2 ^ 21) var1 v) :
    Bounded (2 ^ 58) (var1 * var1 * cal.digP6.toInt64 + ((var1 * cal.digP5.toInt64) <<< 17) + (cal.digP4.toInt64 <<< 35))
      (pressureOffset cal v) := by
  have hsquare := (hv.mul hv (by norm_num)).mul (bounded_toInt64 cal.digP6) (by norm_num)
  have hlinear := (hv.mul (bounded_toInt64 cal.digP5) (by norm_num)).shiftLeft 17 (by norm_num) (by norm_num)
  have hconst := (bounded_toInt64 cal.digP4).shiftLeft 35 (by norm_num) (by norm_num)
  have hsum := (hsquare.add hlinear (by norm_num)).add hconst (by norm_num)
  exact ⟨hsum.holds, hsum.le.trans (by norm_num)⟩

theorem holds_scale (hv : Bounded (2 ^ 21) var1 v) :
    Holds (((1 : Int64) <<< 47) + (((var1 * var1 * cal.digP3.toInt64) >>> 8) + ((var1 * cal.digP2.toInt64) <<< 12)))
      (pressureScale cal v) := by
  have hone : Bounded (2 ^ 47) ((1 : Int64) <<< 47) (2 ^ 47) := ⟨rfl, le_of_eq (abs_of_pos (by norm_num))⟩
  have hcube := (hv.mul hv (by norm_num)).mul (bounded_toInt64 cal.digP3) (by norm_num)
  have hsquare : Bounded (2 ^ 49) _ _ := Bounded.shiftRight (k := 8) ⟨hcube.holds, hcube.le.trans (by norm_num)⟩ (by norm_num)
  have hlinear := (hv.mul (bounded_toInt64 cal.digP2) (by norm_num)).shiftLeft 12 (by norm_num) (by norm_num)
  exact (hone.add (hsquare.add hlinear (by norm_num)) (by norm_num)).holds

theorem holds_divisor (hv : Bounded (2 ^ 21) var1 v) (h : PressureFits cal v adcP) :
    Holds (((((1 : Int64) <<< 47) + (((var1 * var1 * cal.digP3.toInt64) >>> 8) + ((var1 * cal.digP2.toInt64) <<< 12))) *
      cal.digP1.toUInt64.toInt64) >>> 33) (pressureDivisor cal v) :=
  ((holds_scale hv).mul (holds_toUInt64 cal.digP1) h.product).shiftRight 33 (by norm_num)

theorem holds_numerator {word : Int32} (hword : word.toInt = adcP) (hadc : 0 ≤ adcP ∧ adcP < 2 ^ 20)
    (hv : Bounded (2 ^ 21) var1 v) (h : PressureFits cal v adcP) :
    Holds (((((1048576 - word).toInt64 <<< 31) -
      (var1 * var1 * cal.digP6.toInt64 + ((var1 * cal.digP5.toInt64) <<< 17) + (cal.digP4.toInt64 <<< 35))) * 3125))
      (pressureNumerator cal v adcP) := by
  have hfull : Holds (1048576 : Int32) 1048576 := rfl
  have hword' : Holds word adcP := hword
  have hdiff := hfull.sub hword' ⟨by omega, by omega⟩
  have hwide : Bounded (2 ^ 20) (1048576 - word).toInt64 (1048576 - adcP) :=
    ⟨(Int32.toInt_toInt64 _).trans hdiff, abs_le.mpr ⟨by omega, by omega⟩⟩
  have hfactor : Holds (3125 : Int64) 3125 := rfl
  have hnum := (hwide.shiftLeft 31 (by norm_num) (by norm_num)).sub (bounded_offset cal hv) (by norm_num)
  exact hnum.holds.mul hfactor h.numerator

theorem bounded_sum (cal : Bmx280Calibration) {q : Int64} {p : Int} (hq : Bounded (2 ^ 35) q p) :
    Bounded (2 ^ 29) (((q + ((cal.digP9.toInt64 * (q >>> 13) * (q >>> 13)) >>> 25) + ((cal.digP8.toInt64 * q) >>> 19)) >>> 8) +
      (cal.digP7.toInt64 <<< 4)) (pressureSum cal p) := by
  have hshort : Bounded (2 ^ 22) (q >>> 13) (p / 2 ^ 13) := Bounded.shiftRight (k := 13) ⟨hq.holds, hq.le.trans (by norm_num)⟩ (by norm_num)
  have hcube := ((bounded_toInt64 cal.digP9).mul hshort (by norm_num)).mul hshort (by norm_num)
  have hsquare : Bounded (2 ^ 34) _ _ := Bounded.shiftRight (k := 25) ⟨hcube.holds, hcube.le.trans (by norm_num)⟩ (by norm_num)
  have hprod := (bounded_toInt64 cal.digP8).mul hq (by norm_num)
  have hlinear : Bounded (2 ^ 31) _ _ := Bounded.shiftRight (k := 19) ⟨hprod.holds, hprod.le.trans (by norm_num)⟩ (by norm_num)
  have hall := (hq.add hsquare (by norm_num)).add hlinear (by norm_num)
  have hcut : Bounded (2 ^ 28) _ _ := Bounded.shiftRight (k := 8) ⟨hall.holds, hall.le.trans (by norm_num)⟩ (by norm_num)
  have hsum := hcut.add ((bounded_toInt64 cal.digP7).shiftLeft 4 (by norm_num) (by norm_num)) (by norm_num)
  exact ⟨hsum.holds, hsum.le.trans (by norm_num)⟩

/-! ## The function -/

/-- The quotient, of a numerator of 64 bits and a divisor of at least 28. -/
theorem abs_quotient_le (h : PressureFits cal v adcP) :
    |(pressureNumerator cal v adcP).tdiv (pressureDivisor cal v)| ≤ 2 ^ 35 := by
  have habs := h.numerator.abs_le
  exact abs_tdiv_le (c := 2 ^ 28) (by omega) (by norm_num) h.divisor

/-- What `t_fine` is without its offset. -/
def pressureVar1 (tFine : Int32) : Int := tFine.toInt - 128000

variable {s : Bme280}

theorem bounded_var1 (hfine : |s.tFine.toInt| ≤ 2 ^ 20 + 2 ^ 17) :
    Bounded (2 ^ 21) (s.tFine.toInt64 - 128000) (pressureVar1 s.tFine) := by
  have hword : Bounded (2 ^ 20 + 2 ^ 17) s.tFine.toInt64 s.tFine.toInt := ⟨Int32.toInt_toInt64 s.tFine, hfine⟩
  have hoffset : Bounded 128000 (128000 : Int64) 128000 := ⟨rfl, le_of_eq (abs_of_pos (by norm_num))⟩
  have hdiff := hword.sub hoffset (by norm_num)
  exact ⟨hdiff.holds, hdiff.le.trans (by norm_num)⟩

/-- The last conversion loses nothing of a number that is not negative. -/
theorem toNat_narrow {x : Int64} {r : Int} (hx : Holds x r) (hr : 0 ≤ r) (hsmall : r < 2 ^ 15) :
    (x.toInt16.toUInt16.toNat : Int) = r := by
  have hint : x.toInt16.toInt = r := by
    rw [Int64.toInt_toInt16]
    exact (congrArg (Int.bmod · (2 ^ 16)) hx).trans (Int.bmod_eq_of_le (by omega) (by omega))
  have hle : 0 ≤ x.toInt16 := Int16.le_iff_toInt_le.mpr (hint ▸ hr)
  have hnat : x.toInt16.toUInt16.toNat = x.toInt16.toInt.toNat := Int16.toNat_toUInt16_of_le hle
  rw [hnat, hint, Int.toNat_of_nonneg hr]

/-- Where it fits, the function computes the formula in integers. -/
theorem toNat_bmx280ReadPressure (hfine : |s.tFine.toInt| ≤ 2 ^ 20 + 2 ^ 17)
    (h : PressureFits s.cal (pressureVar1 s.tFine) (raw20 s.measurementRegs 0))
    (hr : 0 ≤ pressureReading s.cal (pressureVar1 s.tFine) (raw20 s.measurementRegs 0)) :
    (bmx280ReadPressure s).toNat = pressureReading s.cal (pressureVar1 s.tFine) (raw20 s.measurementRegs 0) := by
  rw [pressureReading] at hr ⊢
  have hadc : (raw20 s.measurementRegs 0 : Int) < 2 ^ 20 := by exact_mod_cast raw20_lt s.measurementRegs 0
  have hv := bounded_var1 hfine
  have hdivisor := holds_divisor hv h
  have hnum := holds_numerator (toInt_adc20 s.measurementRegs 0) ⟨Int.natCast_nonneg _, hadc⟩ hv h
  have hnumBounded : Bounded (2 ^ 35 * 2 ^ 28) _ _ := ⟨hnum, by have := h.numerator.abs_le; omega⟩
  have hquot := hnumBounded.div hdivisor (by norm_num) h.divisor (by norm_num)
  have hsum := bounded_sum s.cal hquot
  have hshift : Bounded (2 ^ 21) _ _ := hsum.shiftRight (k := 8) (by norm_num)
  have hhundred : Holds (100 : Int64) 100 := rfl
  have hread : Bounded 20972 _ _ :=
    Bounded.div (c := 100) ⟨hshift.holds, hshift.le.trans (by norm_num)⟩ hhundred (by norm_num) le_rfl (by norm_num)
  have hnonzero (word : Int64) (hword : Holds word (pressureDivisor s.cal (pressureVar1 s.tFine))) : word ≠ 0 := by
    rintro rfl
    have hzero : (0 : Int) = pressureDivisor s.cal (pressureVar1 s.tFine) := hword
    have hdiv := h.divisor
    omega
  have hne := hnonzero _ hdivisor
  refine Eq.trans ?_ (toNat_narrow hread.holds hr ((le_abs_self _).trans_lt (hread.le.trans_lt (by norm_num))))
  exact congrArg (fun x : UInt16 => (x.toNat : Int)) (if_neg hne)

/-! ## The formula without rounding -/

section

variable (cal : Bmx280Calibration) (v adcP : Int)

def exactDivisor : ℚ :=
  (2 ^ 47 + ((v * v * cal.digP3.toInt : Int) / 2 ^ 8 + (v * cal.digP2.toInt * 2 ^ 12 : Int))) * cal.digP1.toNat / 2 ^ 33

def exactQuotient : ℚ := pressureNumerator cal v adcP / exactDivisor cal v

/-- The quotient `p` corrected, in parts of 256 of a pascal. -/
def exactSum (p : ℚ) : ℚ :=
  (p + p / 2 ^ 13 * (p / 2 ^ 13) * cal.digP9.toInt / 2 ^ 25 + p * cal.digP8.toInt / 2 ^ 19) / 2 ^ 8 + (cal.digP7.toInt * 2 ^ 4 : Int)

/-- What the sensor measures, in hPa, of the raw pressure and the `t_fine` that the temperature left. -/
def exactPressure : ℚ := exactSum cal (exactQuotient cal v adcP) / 2 ^ 8 / 100

theorem near_divisor : Near 2 (pressureDivisor cal v : ℚ) (exactDivisor cal v) := by
  have hp1 : |(cal.digP1.toNat : ℚ)| ≤ 2 ^ 16 := by
    rw [abs_of_nonneg (Nat.cast_nonneg _)]
    exact_mod_cast cal.digP1.toNat_lt.le
  have hcut := near_shift (K := ℚ) (v * v * cal.digP3.toInt) 8
  have hscale := (Near.refl (2 ^ 47 : ℚ)).add (hcut.add (Near.refl ((v * cal.digP2.toInt * 2 ^ 12 : Int) : ℚ)))
  have hprod := hscale.mul_const hp1
  have hcast : ((2 : ℚ) ^ 47 + (((v * v * cal.digP3.toInt) / 2 ^ 8 : Int) + ((v * cal.digP2.toInt * 2 ^ 12 : Int) : ℚ))) * cal.digP1.toNat =
      ((pressureScale cal v * cal.digP1.toNat : Int) : ℚ) := by
    rw [pressureScale]
    push_cast
    rfl
  rw [hcast] at hprod
  exact (hprod.shift 33).weaken (by norm_num)

variable {cal v adcP}

/-- The error of the divisor hardly counts, since it is large. -/
theorem near_quotient (h : PressureFits cal v adcP) :
    Near 1025 ((pressureNumerator cal v adcP).tdiv (pressureDivisor cal v) : ℚ) (exactQuotient cal v adcP) := by
  have hpos : 0 < pressureDivisor cal v := lt_of_lt_of_le (by norm_num) h.divisor
  have hlarge : (2 ^ 28 : ℚ) ≤ pressureDivisor cal v := by exact_mod_cast h.divisor
  have hnear := near_divisor cal v
  have hexact : (2 ^ 27 : ℚ) ≤ exactDivisor cal v := by
    have herror := (abs_le.mp hnear).2
    linarith only [hlarge, herror]
  have hnum : |(pressureNumerator cal v adcP : ℚ)| ≤ 2 ^ 63 := by
    have habs := h.numerator.abs_le
    rw [← Int.cast_abs]
    exact_mod_cast (show |pressureNumerator cal v adcP| ≤ 2 ^ 63 by omega)
  have hquot := (near_tdiv (K := ℚ) (pressureNumerator cal v adcP) hpos).trans
    (hnear.div_left (b := 2 ^ 27) (by norm_num) (le_trans (by norm_num) hlarge) hexact hnum)
  exact hquot.weaken (by norm_num)

theorem near_sum (cal : Bmx280Calibration) {p : Int} {q : ℚ} (hp : |p| ≤ 2 ^ 35) (h : Near 1025 (p : ℚ) q) :
    Near 70 (pressureSum cal p : ℚ) (exactSum cal q) := by
  have hshort : Near (2 : ℚ) ((p / 2 ^ 13 : Int) : ℚ) (q / 2 ^ 13) := (h.shift 13).weaken (by norm_num)
  have hsmall : |((p / 2 ^ 13 : Int) : ℚ)| ≤ 2 ^ 22 := by
    have hcut : |p / 2 ^ 13| ≤ 2 ^ 22 := abs_ediv_le (hp.trans (by norm_num))
    rw [← Int.cast_abs]
    exact_mod_cast hcut
  have hsquare := (hshort.mul_self hsmall).mul_const (abs_toInt_le cal.digP9)
  have hlinear := h.mul_const (abs_toInt_le cal.digP8)
  have hcast9 : ((p / 2 ^ 13 : Int) : ℚ) * ((p / 2 ^ 13 : Int) : ℚ) * cal.digP9.toInt =
      ((cal.digP9.toInt * (p / 2 ^ 13) * (p / 2 ^ 13) : Int) : ℚ) := by
    push_cast
    ring
  have hcast8 : (p : ℚ) * cal.digP8.toInt = ((cal.digP8.toInt * p : Int) : ℚ) := by
    push_cast
    ring
  rw [hcast9] at hsquare
  rw [hcast8] at hlinear
  have hall := (h.add (hsquare.shift 25)).add (hlinear.shift 19)
  rw [← Int.cast_add, ← Int.cast_add] at hall
  have hsum := (hall.shift 8).add (Near.refl ((cal.digP7.toInt * 2 ^ 4 : Int) : ℚ))
  rw [← Int.cast_add] at hsum
  exact hsum.weaken (by norm_num)

end

/-! ## The reading -/

/-- The temperature leaves a `t_fine` of 21 bits, whatever was read. -/
theorem abs_tFineOf_le (cal : Bmx280Calibration) (adcT : Int32) : |(tFineOf cal adcT).toInt| ≤ 2 ^ 20 + 2 ^ 17 := by
  have hword (u : Int32) : Bounded (2 ^ 31) u u.toInt := ⟨rfl, by have h : FitsIn 32 u.toInt := fitsIn_toInt u; have := h.abs_le; omega⟩
  have hvar1 (u : Int32) : Bounded (2 ^ 20) (u >>> 11) (u.toInt / 2 ^ 11) := (hword u).shiftRight (k := 11) (by norm_num)
  have hvar2 (u : Int32) : Bounded (2 ^ 17) (u >>> 14) (u.toInt / 2 ^ 14) := (hword u).shiftRight (k := 14) (by norm_num)
  have hsum := (hvar1 (((adcT >>> 3) - (cal.digT1.toUInt32.toInt32 <<< 1)) * cal.digT2.toInt32)).add
    (hvar2 (((((adcT >>> 4) - cal.digT1.toUInt32.toInt32) * ((adcT >>> 4) - cal.digT1.toUInt32.toInt32)) >>> 12) *
      cal.digT3.toInt32)) (by norm_num)
  have heq : (tFineOf cal adcT).toInt = _ := hsum.holds
  rw [heq]
  exact hsum.le

theorem near_pressureReading {cal : Bmx280Calibration} {v adcP : Int} (h : PressureFits cal v adcP) :
    Near (51 / 50 : ℚ) (pressureReading cal v adcP) (exactPressure cal v adcP) := by
  have hsum := near_sum cal (abs_quotient_le h) (near_quotient h)
  have hcut := (near_tdiv (K := ℚ) _ (show (0 : Int) < 100 by norm_num)).trans
    ((hsum.shift 8).div (show (0 : ℚ) < (100 : Int) by norm_num))
  exact hcut.weaken (by norm_num)

/-- **How exact the reading is**: 1.02 hPa. -/
theorem pressure_near (rep : Replies) (s : Bme280) (r : Readings)
    (h : PressureFits s.cal (pressureVar1 (val (bmx280ReadTemperature rep s)).2.tFine) (raw20 rep.data 0))
    (hpos : 51 / 50 ≤ exactPressure s.cal (pressureVar1 (val (bmx280ReadTemperature rep s)).2.tFine) (raw20 rep.data 0)) :
    Near (51 / 50) ((val (bme280Readings rep s r)).pressure.toNat : ℚ)
      (exactPressure s.cal (pressureVar1 (val (bmx280ReadTemperature rep s)).2.tFine) (raw20 rep.data 0)) := by
  have hnear := near_pressureReading h
  have hnonneg : 0 ≤ pressureReading s.cal (pressureVar1 (val (bmx280ReadTemperature rep s)).2.tFine) (raw20 rep.data 0) := by
    have herror := (abs_le.mp hnear).1
    refine Int.cast_le (R := ℚ).mp ?_
    push_cast
    linarith only [herror, hpos]
  have hread := toNat_bmx280ReadPressure (s := (val (bmx280ReadTemperature rep s)).2) (abs_tFineOf_le _ _) h hnonneg
  have hcast : ((val (bme280Readings rep s r)).pressure.toNat : ℚ) =
      (pressureReading s.cal (pressureVar1 (val (bmx280ReadTemperature rep s)).2.tFine) (raw20 rep.data 0) : ℚ) := by
    exact_mod_cast hread
  rwa [hcast]

theorem pressure_near_sample :
    Near (51 / 50) ((val (bme280Readings warmReplies warmSensor sampleReadings)).pressure.toNat : ℚ)
      (exactPressure warmSensor.cal (pressureVar1 (val (bmx280ReadTemperature warmReplies warmSensor)).2.tFine)
        (raw20 warmReplies.data 0)) :=
  pressure_near warmReplies warmSensor sampleReadings
    ⟨by decide +kernel, by decide +kernel, by decide +kernel⟩ (by decide +kernel)

end OflMetrics
