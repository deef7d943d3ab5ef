/-
`crc8` of `ofllibs`, and what it detects.

The loop runs a shift register with the polynomial x^8 + x^5 + x^4 + 1 over the
bits of the message, lowest first (`crc8_eq`). A message with its CRC behind it is
one that brings the register from zero back to zero (`crc8_checks_iff`), so errors
in either are seen alike (`crc8_detects`).
-/
import OflMetrics.Crc

namespace OflMetrics

open Embed Embed.Lfsr

/-- `CRC8INIT`. -/
def CRC8INIT : UInt8 := 0x00

/-- `CRC8POLY`: X^8+X^5+X^4+X^0. -/
def CRC8POLY : UInt8 := 0x18

/-- One turn of the inner loop. -/
def crc8Bit (s : UInt8 × UInt8) : UInt8 × UInt8 :=
  let (crc, b) := s
  let feedbackBit := (crc ^^^ b) &&& 0x01
  let crc := if feedbackBit = 0x01 then crc ^^^ CRC8POLY else crc
  let crc := (crc >>> 1) &&& 0x7F
  let crc := if feedbackBit = 0x01 then crc ||| 0x80 else crc
  (crc, b >>> 1)

/-- The inner loop, eight turns over one byte. -/
def crc8Byte (crc b : UInt8) : UInt8 := (crc8Bit^[8] (crc, b)).1

/-- The outer loop: `left` bytes from `loopCount` on. -/
def crc8Loop (data : Mem UInt8) : Nat → Nat → UInt8 → UInt8
  | 0, _, crc => crc
  | left + 1, loopCount, crc => crc8Loop data left (loopCount + 1) (crc8Byte crc (data loopCount))

/-- `crc8`. -/
def crc8 (data : Mem UInt8) (numberOfBytesInData : UInt16) : UInt8 := crc8Loop data numberOfBytesInData.toNat 0 CRC8INIT

/-- x^8 + x^5 + x^4 + 1 without its leading term, bits reversed. -/
def generator8 : BitVec 8 := 0x8C

/-! ## The loops -/

theorem byte_and_one (b : UInt8) : b &&& 0x01 = if b.toBitVec.getLsbD 0 then 1 else 0 := by
  refine UInt8.toBitVec_inj.mp ?_
  rw [UInt8.toBitVec_and, show (0x01 : UInt8).toBitVec = 1#8 from rfl, BitVec.and_one_eq_setWidth_ofBool_getLsbD]
  cases b.toBitVec.getLsbD 0 <;> rfl

theorem crc8_feedback (crc b : UInt8) :
    (crc ^^^ b) &&& 0x01 = if crc.toBitVec.getLsbD 0 ^^ b.toBitVec.getLsbD 0 then 1 else 0 := by
  rw [byte_and_one, UInt8.toBitVec_xor, BitVec.getLsbD_xor]

/-- The mask is for a place that a shift leaves clear. -/
theorem crc8_shift (crc : UInt8) : (crc >>> 1) &&& 0x7F = .ofBitVec (crc.toBitVec >>> 1) := by
  have hall : ∀ i : Fin 256, ((UInt8.ofFin i >>> 1 : UInt8)) &&& 0x7F = .ofBitVec ((UInt8.ofFin i).toBitVec >>> 1) := by
    decide +kernel
  exact hall crc.toFin

/-- `CRC8POLY` before the shift and the last place after it are the polynomial. -/
theorem crc8_poly (crc : UInt8) :
    ((crc ^^^ CRC8POLY) >>> 1) &&& 0x7F ||| 0x80 = .ofBitVec ((crc.toBitVec >>> 1) ^^^ generator8) := by
  have hall : ∀ i : Fin 256, ((UInt8.ofFin i ^^^ CRC8POLY) >>> 1) &&& 0x7F ||| 0x80 =
      .ofBitVec (((UInt8.ofFin i).toBitVec >>> 1) ^^^ generator8) := by
    decide +kernel
  exact hall crc.toFin

/-- One turn of the inner loop is one step of the register. -/
theorem crc8Bit_eq (s : BitVec 8) (b : UInt8) :
    crc8Bit (UInt8.ofBitVec s, b) = (UInt8.ofBitVec (step generator8 s (b.toBitVec.getLsbD 0)), b >>> 1) := by
  simp only [crc8Bit, crc8_feedback, step]
  cases s.getLsbD 0 ^^ b.toBitVec.getLsbD 0 with
  | false => exact congrArg (·, b >>> 1) (crc8_shift (.ofBitVec s))
  | true => exact congrArg (·, b >>> 1) (crc8_poly (.ofBitVec s))

theorem crc8Bit_iterate (n : Nat) (s : BitVec 8) (b : UInt8) :
    (crc8Bit^[n] (UInt8.ofBitVec s, b)).1 = UInt8.ofBitVec (feed generator8 s ((List.range n).map b.toBitVec.getLsbD)) := by
  induction n generalizing s b with
  | zero => rfl
  | succ n ih =>
    rw [Function.iterate_succ_apply, crc8Bit_eq, ih, List.range_succ_eq_map, List.map_cons, feed_cons, List.map_map]
    congr 2
    refine List.map_congr_left fun i _ => ?_
    simp [Nat.add_comm 1 i]

theorem crc8_foldl (l : List UInt8) (s : BitVec 8) :
    l.foldl crc8Byte (UInt8.ofBitVec s) = UInt8.ofBitVec (feed generator8 s (messageBits l)) := by
  induction l generalizing s with
  | nil => rfl
  | cons b l ih =>
    rw [List.foldl_cons, crc8Byte, crc8Bit_iterate, ih, messageBits_cons, feed_append]
    rfl

theorem crc8Loop_eq (data : Mem UInt8) (n p : Nat) (crc : UInt8) :
    crc8Loop data n p crc = (data.slice p n).foldl crc8Byte crc := by
  induction n generalizing p crc with
  | zero => rw [Mem.slice_zero]; rfl
  | succ n ih => rw [crc8Loop, ih, Mem.slice_succ, List.foldl_cons]

theorem crc8_eq (data : Mem UInt8) (n : UInt16) :
    crc8 data n = UInt8.ofBitVec (feed generator8 0 (messageBits (data.slice 0 n.toNat))) := by
  rw [crc8, crc8Loop_eq, ← crc8_foldl]
  rfl

/-! ## A message with its CRC -/

/-- The CRC behind a message brings the register to zero, and no other byte does. -/
theorem crc8_checks_iff (data : Mem UInt8) (n : UInt16) :
    crc8 data n = data n.toNat ↔ feed generator8 0 (messageBits (data.slice 0 (n.toNat + 1))) = 0 := by
  have hmsb : generator8.msb = true := by decide
  have hsplit : messageBits (data.slice 0 (n.toNat + 1)) =
      messageBits (data.slice 0 n.toNat) ++ byteBits (data n.toNat) := by
    rw [Mem.slice_add, Mem.slice_succ, Mem.slice_zero, Nat.zero_add, messageBits, List.flatMap_append, List.flatMap_singleton]
    rfl
  rw [crc8_eq, hsplit, feed_append, byteBits, feed_eq_zero_iff hmsb, ← UInt8.toBitVec_inj, UInt8.toBitVec_ofBitVec]

/-- Errors that a CRC of 8 bits is to detect in `n` bytes. -/
inductive Detectable8 (n : Nat) (errors : List Bool) : Prop where
  | burst (k : Nat) (h : ∀ i, errors[i]? = some true → k ≤ i ∧ i < k + 8)
  | odd (h : errors.count true % 2 = 1)
  | two (h : errors.count true = 2) (hn : n ≤ 15)

/-- **What `crc8` detects**: a message with its CRC that is damaged, in the CRC or
before it, does not check any more when the errors lie within 8 bits, when their
number is odd, and when they are two in at most 15 bytes. -/
theorem crc8_detects (data data' : Mem UInt8) (n : UInt16) (hchecks : crc8 data n = data n.toNat)
    (hne : data.slice 0 (n.toNat + 1) ≠ data'.slice 0 (n.toNat + 1))
    (herrors : Detectable8 (n.toNat + 1) (differences (data.slice 0 (n.toNat + 1)) (data'.slice 0 (n.toNat + 1)))) :
    crc8 data' n ≠ data' n.toNat := by
  have hmsb : generator8.msb = true := by decide
  have hlen : (data.slice 0 (n.toNat + 1)).length = (data'.slice 0 (n.toNat + 1)).length := by simp
  have hbits : (differences (data.slice 0 (n.toNat + 1)) (data'.slice 0 (n.toNat + 1))).length = 8 * (n.toNat + 1) := by
    simp [differences, length_messageBits]
  have hwrong : feed generator8 0 (differences (data.slice 0 (n.toNat + 1)) (data'.slice 0 (n.toNat + 1))) ≠ 0 := by
    cases herrors with
    | burst k h => exact feed_burst_ne_zero hmsb (mem_differences hlen hne) h
    | odd h => exact feed_odd_ne_zero (by decide) h
    | two h hn =>
      have hback : neverBack generator8 119 generator8 = true := by decide +kernel
      exact feed_two_ne_zero hmsb h fun d hpos hd => feed_ne_of_neverBack hback hpos (by omega)
  intro hchecks'
  rw [crc8_checks_iff] at hchecks hchecks'
  exact hwrong ((feed_eq_iff generator8 (length_messageBits_eq hlen) 0).mp (hchecks.trans hchecks'.symm))

/-- The memory of a sensor at 85 degrees, with its CRC behind it. -/
def sampleScratchpad : List UInt8 := [0x50, 0x05, 0x4B, 0x46, 0x7F, 0xFF, 0x0C, 0x10, 0x1C]

/-- Two bits of it are damaged, one of them in the CRC. -/
theorem crc8_detects_two :
    crc8 (fun i => sampleScratchpad.getD i 0) 8 = 0x1C ∧
      crc8 (fun i => [0x50, 0x05, 0x4B, 0x06, 0x7F, 0xFF, 0x0C, 0x10, 0x1D].getD i 0) 8 ≠ 0x1D := by
  have hchecks : crc8 (fun i => sampleScratchpad.getD i 0) 8 = 0x1C := by decide +kernel
  exact ⟨hchecks, crc8_detects (fun i => sampleScratchpad.getD i 0) _ 8 hchecks (by decide +kernel)
    (.two (by decide +kernel) (by decide))⟩

end OflMetrics
