/-
The report of one cycle of `oflnode.c`: the part of `main`'s loop that reads
the sensors and appends their texts to `tx_paquet.data`, section by section.

A section is a program that logs what it does (`NodeEvent`): each `sprintf`
and each switch of a power line, a bus or the radio. The readings the
drivers and the timer interrupt deliver in the cycle are an input.
-/
import OflMetrics.Config
import OflMetrics.Paquet
import OflMetrics.Embed.Printf

namespace OflMetrics

open Embed Embed.Printf

/-- `FW_VER`. -/
def FW_VER : Nat := 105

/-- `CAPA_POWER`. -/
def CAPA_POWER : UInt8 := 1

/-- `CAPA_LIGHT`. -/
def CAPA_LIGHT : UInt8 := 2

/-- `CAPA_TEMP`. -/
def CAPA_TEMP : UInt8 := 4

/-- What the main loop does, as far as it is seen outside. -/
inductive NodeEvent where
  | radOn
  | radOff
  | ds1820Start
  | ds1820Stop
  | i2cEnable
  | i2cDisable
  /-- A text appended to `tx_paquet.data`. -/
  | sprintf (text : List Char)
  | checkMaca
  /-- `free_packet`, of the buffer at a handle. -/
  | freePacket (p : Nat)
  /-- `tx_packet`, of the buffer at a handle, with what is in it. -/
  | txPacket (p : Nat) (pk : Packet)
  | resetWatchdog
  | digitalWrite (v : Bool)
  | hibernate (sec : Nat) (isdeep : Bool)

/-- A part of the main loop. -/
abbrev Node := Traced NodeEvent

/-- What the sensors, the converter and the clock deliver in one cycle. -/
structure Readings where
  /-- `get_batteryLevel()` -/
  batteryLevel : UInt16
  awakeSec : UInt32
  /-- `ds1820_readTemp`: sign, degrees and fraction, or an error. -/
  ds1820 : Option (UInt8 × UInt8 × UInt8)
  /-- `bmx280_read_temperature()` -/
  temperature : Int16
  /-- `bmx280_read_pressure()` -/
  pressure : UInt16
  /-- `bme280_read_humidity()` -/
  humidity : UInt16
  /-- `adc_reading[0]` at each sample. -/
  lightAdc : Nat → UInt16
  /-- `adc_reading[POWER_ADC_CHAN]` at each sample. -/
  powerAdc : Nat → UInt16

/-- `get_lumi`: the mean of five samples. -/
def getLumi (adc : Nat → UInt16) : UInt8 × UInt16 :=
  let tt := (List.range 5).foldl (fun (tt : UInt32) tc => tt + (adc tc).toUInt32) 0
  (1, (tt / 5).toUInt16)

/-- `get_power`: the spread of five samples. -/
def getPower (adc : Nat → UInt16) : UInt8 × UInt16 :=
  let (tmin, tmax) := (List.range 5).foldl
    (fun ((tmin, tmax) : UInt32 × UInt32) tc =>
      let v := (adc tc).toUInt32
      if tc = 0 then (v, v) else (if v < tmin then v else tmin, if v > tmax then v else tmax))
    (0, 0)
  (1, (tmax - tmin).toUInt16)

/-- `sprintf(tx_paquet.data + strlen(tx_paquet.data), ...)`. -/
def sprintf (fields : List (List Char)) : Node PUnit := tell [.sprintf fields.flatten]

/-! ## The sections -/

/-- Is the DS1820 the thermometer of this node? -/
def UsesDs1820 (bme280Presence : Bool) (config : ConfigT) : Prop :=
  bme280Presence = false ∧ byte0 config.capa &&& CAPA_TEMP ≠ 0

instance (bme280Presence : Bool) (config : ConfigT) : Decidable (UsesDs1820 bme280Presence config) :=
  inferInstanceAs (Decidable (_ ∧ _))

def batteryReport (config : ConfigT) (mainLoopCount : UInt32) (r : Readings) : Node PUnit :=
  if mainLoopCount = 0 ∨ mainLoopCount % 5 = 0 then
    sprintf ["FWVER:".toList, zdecInt 4 FW_VER, ";CAPA:".toList, hex2 (byte1 config.capa),
      hex2 (byte0 config.capa), ";BATLEV:".toList, dec r.batteryLevel.toNat, ";AWAKE_SEC:".toList, dec r.awakeSec.toNat,
      ";MAIN_LOOP:".toList, dec mainLoopCount.toNat, ";".toList]
  else pure ⟨⟩

/-- The DS1820's reading as it is reported, and `report_err`. -/
def ds1820Text : Option (UInt8 × UInt8 × UInt8) → Node Nat
  | some (mCelSign, mCel, mCelFrac) =>
    if mCel = 85 then pure 11
    else do
      sprintf ["TEMP:".toList, [if mCelSign = 1 then '-' else '+'], decInt mCel.toNat, ".".toList,
        zdecInt 2 mCelFrac.toNat, ";".toList]
      return 0
  | none => pure 12

def ds1820Report (bme280Presence : Bool) (config : ConfigT) (r : Readings) : Node Nat :=
  if UsesDs1820 bme280Presence config then do
    let reportErr ← ds1820Text r.ds1820
    tell [.ds1820Stop]
    return reportErr
  else pure 0

/-- `temp_centi`. -/
def tempCenti (temp : Int16) : Int := if temp.toInt ≥ 0 then temp.toInt.tmod 100 else (-temp.toInt).tmod 100

def bme280Report (bme280Presence : Bool) (r : Readings) : Node PUnit :=
  if bme280Presence then do
    tell [.i2cEnable]
    tell [.i2cDisable]
    sprintf ["TEMP:".toList, decInt (r.temperature.toInt.tdiv 100), ".".toList, zdecInt 2 (tempCenti r.temperature),
      ";PRESS:".toList, zdecInt 4 r.pressure.toNat, ";HUMI:+".toList, decInt (r.humidity.toNat / 100 : Nat),
      ".".toList, zdecInt 2 (r.humidity.toNat % 100 : Nat), ";".toList]
  else pure ⟨⟩

def lumiReport (config : ConfigT) (r : Readings) : Node PUnit :=
  if byte0 config.capa &&& CAPA_LIGHT ≠ 0 ∧ (getLumi r.lightAdc).1 = 1 then
    sprintf ["LUMI:+".toList, zdec 5 (getLumi r.lightAdc).2.toNat, ";".toList]
  else pure ⟨⟩

def powerReport (config : ConfigT) (r : Readings) : Node PUnit :=
  if byte0 config.capa &&& CAPA_POWER ≠ 0 ∧ (getPower r.powerAdc).1 = 1 then
    sprintf ["POWER:+".toList, zdec 5 (getPower r.powerAdc).2.toNat, ";".toList]
  else pure ⟨⟩

def errorReport (reportErr : Nat) : Node PUnit :=
  if reportErr > 0 then sprintf ["ERROR:".toList, zdecInt 4 reportErr, ";".toList] else pure ⟨⟩

/-- The sections in the order of `main`. -/
def report (bme280Presence : Bool) (config : ConfigT) (mainLoopCount : UInt32) (r : Readings) : Node PUnit := do
  tell (if UsesDs1820 bme280Presence config then [.ds1820Start] else [])
  batteryReport config mainLoopCount r
  let reportErr ← ds1820Report bme280Presence config r
  bme280Report bme280Presence r
  lumiReport config r
  powerReport config r
  errorReport reportErr

/-! ## The text -/

/-- The texts appended in a run, in order. -/
def texts (l : List NodeEvent) : List (List Char) :=
  l.filterMap fun | .sprintf text => some text | _ => none

/-- The texts of one cycle's report. -/
def reportTexts (bme280Presence : Bool) (config : ConfigT) (mainLoopCount : UInt32) (r : Readings) : List (List Char) :=
  texts (report bme280Presence config mainLoopCount r).log

/-- What is in `tx_paquet.data` at the end. -/
def reportText (bme280Presence : Bool) (config : ConfigT) (mainLoopCount : UInt32) (r : Readings) : List Char :=
  (reportTexts bme280Presence config mainLoopCount r).flatten

/-! ## A sample node -/

/-- A node with all capabilities. -/
def fullConfig : ConfigT := { sampleConfig with txpower := 0, capa := #v[7, 0], securekey := .replicate 32 0 }

/-- A room, after ten hours. -/
def sampleReadings : Readings where
  batteryLevel := 3000
  awakeSec := 36000
  ds1820 := none
  temperature := 2150
  pressure := 1013
  humidity := 4500
  lightAdc := fun _ => 512
  powerAdc := fun _ => 1000

end OflMetrics
