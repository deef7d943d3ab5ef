/-
The driver of the BME280 sensor, `ofllibs/i2c_bme280.c`.

The bus is not here: what it delivers is an input of each read, and
`read_u8_reg`, which waits until it has delivered, returns the number of bytes
asked for. The sensor answers a read of several bytes from consecutive
registers on. The compensation formulas are computed in machine integers, as
the source has them, with products that wrap.
-/
import OflMetrics.Embed.Mem

namespace OflMetrics

open Embed

/-- `bmx280_calibration_t`. -/
@[ext] structure Bmx280Calibration where
  digT1 : UInt16
  digT2 : Int16
  digT3 : Int16
  digP1 : UInt16
  digP2 : Int16
  digP3 : Int16
  digP4 : Int16
  digP5 : Int16
  digP6 : Int16
  digP7 : Int16
  digP8 : Int16
  digP9 : Int16
  digH1 : UInt8
  digH2 : Int16
  digH3 : UInt8
  digH4 : Int16
  digH5 : Int16
  digH6 : Int8
  deriving DecidableEq

/-- The globals of the driver. -/
structure Bme280 where
  measurementRegs : Mem UInt8
  cal : Bmx280Calibration
  tFine : Int32

/-- What the driver asks of the sensor. -/
inductive I2cEvent where
  /-- `write_u8_reg` of one byte. -/
  | writeReg (reg b : UInt8)
  /-- `get_status`, and what it returned. -/
  | getStatus (b : UInt8)
  deriving DecidableEq

/-- A part of the driver. -/
abbrev Driver := Traced I2cEvent

/-- `read_u8_reg`, when the bus delivers `reply`: what it returns, and `data`. -/
def readU8Reg (reply data : Mem UInt8) (datalen : UInt8) : UInt8 × Mem UInt8 :=
  (datalen, data.copy 0 reply datalen.toNat)

/-- What the sensor delivers from a register on. -/
def burst (regs : UInt8 → UInt8) (reg : UInt8) : Mem UInt8 := fun i => regs (reg + UInt8.ofNat i)

/-! ## `read_calibration_data` -/

/-- `get_uint16_le`. -/
def getUint16Le (buffer : Mem UInt8) (offset : Nat) : UInt16 :=
  ((buffer (offset + 1)).toUInt16 <<< 8) + (buffer offset).toUInt16

/-- `get_int16_le`; the sum is an `int`, narrowed when it is returned. -/
def getInt16Le (buffer : Mem UInt8) (offset : Nat) : Int16 :=
  Int16.ofNat (((buffer (offset + 1)).toNat <<< 8) + (buffer offset).toNat)

/-- `cal` from the bytes of the registers from 0x88 on. -/
def decodeCalibration (buffer : Mem UInt8) : Bmx280Calibration :=
  let offset := 0x88
  { digT1 := getUint16Le buffer (0x88 - offset)
    digT2 := getInt16Le buffer (0x8A - offset)
    digT3 := getInt16Le buffer (0x8C - offset)
    digP1 := getUint16Le buffer (0x8E - offset)
    digP2 := getInt16Le buffer (0x90 - offset)
    digP3 := getInt16Le buffer (0x92 - offset)
    digP4 := getInt16Le buffer (0x94 - offset)
    digP5 := getInt16Le buffer (0x96 - offset)
    digP6 := getInt16Le buffer (0x98 - offset)
    digP7 := getInt16Le buffer (0x9A - offset)
    digP8 := getInt16Le buffer (0x9C - offset)
    digP9 := getInt16Le buffer (0x9E - offset)
    digH1 := buffer (0xA1 - offset)
    digH2 := getInt16Le buffer (0xE1 - offset)
    digH3 := buffer (0xE3 - offset)
    -- The high byte is shifted as it is, without its sign.
    digH4 := Int16.ofNat (((buffer (0xE4 - offset)).toNat <<< 4) + (buffer (0xE5 - offset) &&& 0x0F).toNat)
    digH5 := Int16.ofNat (((buffer (0xE6 - offset)).toNat <<< 4) + ((buffer (0xE5 - offset) &&& 0xF0) >>> 4).toNat)
    digH6 := (buffer (0xE7 - offset)).toInt8 }

/-- `read_calibration_data`, of a sensor with the registers `regs`: what it
returns, and `cal`. -/
def readCalibrationData (regs : UInt8 → UInt8) (stack : Mem UInt8) (cal : Bmx280Calibration) :
    Driver (Int × Bmx280Calibration) :=
  let nrBytesToRead := 0xE7 - 0x88 + 1
  let buffer := stack.fill 0 0 128
  let (nrBytes, buffer) := readU8Reg (burst regs 0x88) buffer (UInt8.ofNat nrBytesToRead)
  if nrBytes.toNat ≠ nrBytesToRead then return (-1, cal)
  else do
    let cal := decodeCalibration buffer
    tell [.writeReg 0xF4 0]
    tell [.writeReg 0xF2 0x01]
    tell [.writeReg 0xF4 0x24]
    return (1, cal)

/-! ## `do_measurement` -/

/-- What the sensor answers in one cycle. -/
structure Replies where
  ctrlMeas : UInt8
  /-- The status register at each poll. -/
  status : Nat → UInt8
  /-- The eight registers from 0xF7 on. -/
  data : Mem UInt8

/-- The loop of `do_measurement`, from poll `count` on, with `n` polls to go. -/
def pollStatus (status : Nat → UInt8) : Nat → Nat → Driver PUnit
  | 0, _ => return
  | n + 1, count => do
    tell [.getStatus (status count)]
    if status count &&& 0x08 ≠ 0 then pollStatus status n (count + 1) else return

/-- The mode is set when it is another. -/
def setMode (pMode : UInt8) (rep : Replies) : Driver PUnit :=
  let runMode := rep.ctrlMeas &&& 3
  if runMode ≠ pMode then do
    tell [.writeReg 0xF4 ((rep.ctrlMeas &&& ~~~3) ||| pMode)]
    pollStatus rep.status 10 0
  else return

/-- `do_measurement`. -/
def doMeasurement (pMode : UInt8) (rep : Replies) (s : Bme280) : Driver (Int × Bme280) := do
  setMode pMode rep
  let nrBytesToRead := 8
  let (nrBytes, measurementRegs) := readU8Reg rep.data s.measurementRegs nrBytesToRead
  return (if nrBytes ≠ nrBytesToRead then -1 else 0, { s with measurementRegs })

/-! ## Compensation -/

/-- `BMX280_MODE_FORCED`. -/
def BMX280_MODE_FORCED : UInt8 := 1

/-- The 20 bits of a raw value in three registers from `i` on. -/
def adc20 (regs : Mem UInt8) (i : Nat) : Int32 :=
  (((regs i).toUInt32 <<< 12) ||| ((regs (i + 1)).toUInt32 <<< 4) |||
    (((regs (i + 2)).toUInt32 >>> 4) &&& 0x0F)).toInt32

/-- `t_fine`, from the raw temperature. -/
def tFineOf (cal : Bmx280Calibration) (adcT : Int32) : Int32 :=
  let t1 := cal.digT1.toUInt32.toInt32
  let var1 := (((adcT >>> 3) - (t1 <<< 1)) * cal.digT2.toInt32) >>> 11
  let var2 := (((((adcT >>> 4) - t1) * ((adcT >>> 4) - t1)) >>> 12) * cal.digT3.toInt32) >>> 14
  var1 + var2

/-- `bmx280_read_temperature`, in hundredths of a degree. -/
def bmx280ReadTemperature (rep : Replies) (s : Bme280) : Driver (Int16 × Bme280) := do
  let (ret, s) ← doMeasurement BMX280_MODE_FORCED rep s
  if ret < 0 then return (-10000, s)
  else
    let tFine := tFineOf s.cal (adc20 s.measurementRegs 3)
    return (((tFine * 5 + 128) >>> 8).toInt16, { s with tFine })

/-- `bmx280_read_pressure`. -/
def bmx280ReadPressure (s : Bme280) : UInt16 :=
  let adcP := adc20 s.measurementRegs 0
  let cal := s.cal
  let var1 : Int64 := s.tFine.toInt64 - 128000
  let var2 := var1 * var1 * cal.digP6.toInt64
  let var2 := var2 + ((var1 * cal.digP5.toInt64) <<< 17)
  let var2 := var2 + (cal.digP4.toInt64 <<< 35)
  let var1 := ((var1 * var1 * cal.digP3.toInt64) >>> 8) + ((var1 * cal.digP2.toInt64) <<< 12)
  let var1 := ((((1 : Int64) <<< 47) + var1) * cal.digP1.toUInt64.toInt64) >>> 33
  if var1 = 0 then 0xFFFF
  else
    let pAcc : Int64 := (1048576 - adcP).toInt64
    let pAcc := (((pAcc <<< 31) - var2) * 3125) / var1
    let var1 := (cal.digP9.toInt64 * (pAcc >>> 13) * (pAcc >>> 13)) >>> 25
    let var2 := (cal.digP8.toInt64 * pAcc) >>> 19
    let pAcc := ((pAcc + var1 + var2) >>> 8) + (cal.digP7.toInt64 <<< 4)
    ((pAcc >>> 8) / 100).toInt16.toUInt16

/-- `bme280_read_humidity`, in hundredths of a percent. -/
def bme280ReadHumidity (s : Bme280) : UInt16 :=
  let adcH : Int32 := (((s.measurementRegs 6).toUInt32 <<< 8) ||| (s.measurementRegs 7).toUInt32).toInt32
  let cal := s.cal
  let var1 := s.tFine - 76800
  let var1 :=
    ((((adcH <<< 14) - (cal.digH4.toInt32 <<< 20) - (cal.digH5.toInt32 * var1)) + 16384) >>> 15) *
      (((((((var1 * cal.digH6.toInt32) >>> 10) *
        (((var1 * cal.digH3.toUInt32.toInt32) >>> 11) + 32768)) >>> 10) + 2097152) * cal.digH2.toInt32 + 8192) >>> 14)
  let var1 := var1 - (((((var1 >>> 15) * (var1 >>> 15)) >>> 7) * cal.digH1.toUInt32.toInt32) >>> 4)
  let var1 := if var1 < 0 then 0 else var1
  let var1 := if var1 > 419430400 then 419430400 else var1
  (((100 : UInt32) * (var1.toUInt32 >>> 12)) >>> 10).toUInt16

end OflMetrics
