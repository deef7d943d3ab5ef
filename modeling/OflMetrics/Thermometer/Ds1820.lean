/-
The driver of the thermometer, `ofllibs/ds1820.c`: bytes on a one-wire line, and
the measurement read over it.

The functions log what they do to their pin. What the pin reads is an input: one
level for each `digitalRead`, in order.
-/
import OflMetrics.Crc8

namespace OflMetrics

open Embed Embed.Traced

/-- `TEMP_POWER_PIN` -/
def TEMP_POWER_PIN : UInt8 := 28

/-- `TEMP_PIN` -/
def TEMP_PIN : UInt8 := 29

/-- What the driver does to a pin, and how long it waits. -/
inductive PinEvent where
  /-- `setPinGpio`, with `GPIO_DIR_OUTPUT` or not. -/
  | setPinGpio (pin : UInt8) (output : Bool)
  | digitalWrite (pin val : UInt8)
  | digitalRead (pin : UInt8)
  | delayMicroseconds (d : UInt16)

/-- A part of the driver. -/
abbrev OneWire := Traced PinEvent

/-- `ds1820_start` -/
def ds1820Start : OneWire PUnit := do
  tell [.setPinGpio TEMP_POWER_PIN true, .setPinGpio TEMP_PIN true]
  tell [.digitalWrite TEMP_POWER_PIN 1, .digitalWrite TEMP_PIN 1]

/-- `ds1820_stop` -/
def ds1820Stop : OneWire PUnit := tell [.digitalWrite TEMP_POWER_PIN 0, .digitalWrite TEMP_PIN 0]

/-- `OneWireReset` -/
def oneWireReset (pin : UInt8) : OneWire PUnit := do
  tell [.setPinGpio pin true]
  tell [.digitalWrite pin 0, .delayMicroseconds 500]
  tell [.digitalWrite pin 1, .delayMicroseconds 500]

/-- The loop of `OneWireOutByte`: the `n` lowest bits of `d`. -/
def oneWireOutBits (pin : UInt8) : Nat → UInt8 → OneWire PUnit
  | 0, _ => return ⟨⟩
  | n + 1, d => do
    if d &&& 0x01 = 1 then
      tell [.digitalWrite pin 0, .delayMicroseconds 7, .digitalWrite pin 1, .delayMicroseconds 64]
    else
      tell [.digitalWrite pin 0, .delayMicroseconds 60, .digitalWrite pin 1, .delayMicroseconds 10]
    oneWireOutBits pin n (d >>> 1)

/-- `OneWireOutByte` -/
def oneWireOutByte (pin d : UInt8) : OneWire PUnit := do
  tell [.setPinGpio pin true]
  oneWireOutBits pin 8 d

/-- The loop of `OneWireInByte`, `left` turns from `n` on. -/
def oneWireInBits (pin : UInt8) (line : Nat → UInt8) : Nat → Nat → UInt8 → OneWire UInt8
  | 0, _, d => return d
  | left + 1, n, d => do
    tell [.digitalWrite pin 0, .setPinGpio pin true, .delayMicroseconds 5, .setPinGpio pin false, .delayMicroseconds 5]
    tell [.digitalRead pin]
    let b := line n
    tell [.delayMicroseconds 50]
    oneWireInBits pin line left (n + 1) ((d >>> 1) ||| (b <<< 7))

/-- `OneWireInByte`, when `digitalRead` returns `line n` the `n`-th time. -/
def oneWireInByte (pin : UInt8) (line : Nat → UInt8) : OneWire UInt8 := oneWireInBits pin line 8 0 0

/-- The loop that reads the scratchpad, `left` bytes from `cc` on. -/
def readScratchpad (line : Nat → UInt8) : Nat → Nat → Mem UInt8 → OneWire (Mem UInt8)
  | 0, _, sp => return sp
  | left + 1, cc, sp => do
    let b ← oneWireInByte TEMP_PIN fun n => line (8 * cc + n)
    readScratchpad line left (cc + 1) (Function.update sp cc b)

/-- The sign, the degrees and the hundredths of a scratchpad's measurement. -/
def ds1820Value (sp : Mem UInt8) : UInt8 × UInt8 × UInt8 :=
  let meas := (sp 0).toUInt16
  let meas := meas ||| ((sp 1).toUInt16 <<< 8)
  let (subzero, meas) : UInt8 × UInt16 := if meas &&& 0x8000 ≠ 0 then (1, (meas ^^^ 0xffff) + 1) else (0, meas)
  (subzero, (meas >>> 4).toUInt8, UInt8.ofNat ((meas &&& 0x000F).toUInt8.toNat * 100 / 16))

/-- `ds1820_readTemp`, with what is on the stack in `sp`: what it stores, or
nothing when it returns 0. -/
def ds1820ReadTemp (stack : Mem UInt8) (line : Nat → UInt8) : OneWire (Option (UInt8 × UInt8 × UInt8)) := do
  oneWireReset TEMP_PIN
  oneWireOutByte TEMP_PIN 0xcc
  oneWireOutByte TEMP_PIN 0x44
  tell (List.replicate 1000 (.delayMicroseconds 1000))
  oneWireReset TEMP_PIN
  oneWireOutByte TEMP_PIN 0xcc
  oneWireOutByte TEMP_PIN 0xbe
  let sp ← readScratchpad line 9 0 stack
  let computeCrc8 := crc8 sp 8
  return if computeCrc8 = sp 8 then some (ds1820Value sp) else none

end OflMetrics
