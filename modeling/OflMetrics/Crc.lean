/-
What `crc16` detects.

The loop of `crc16` runs a shift register with the polynomial
x^16 + x^12 + x^5 + 1 over the bits of the message, lowest first
(`crcBytes_eq`), and its last lines lose nothing of the register
(`crc16Final_injective`). So two messages have the same CRC exactly when their
difference brings the register from zero back to zero (`crcBytes_eq_iff`).
-/
import OflMetrics.PaquetFacts
import OflMetrics.Embed.Lfsr

namespace OflMetrics

open Embed Embed.Traced Embed.Lfsr

/-- The bits of a byte, lowest first. -/
def byteBits (b : UInt8) : List Bool := (List.range 8).map b.toBitVec.getLsbD

/-- The bits of a message, in the order they are sent. -/
def messageBits (l : List UInt8) : List Bool := l.flatMap byteBits

/-- Where two messages differ, bit by bit. -/
def differences (m m' : List UInt8) : List Bool := List.zipWith xor (messageBits m) (messageBits m')

/-- x^16 + x^12 + x^5 + 1 without its leading term, bits reversed. -/
def generator : BitVec 16 := 0x8408

/-- The 32-bit `crc` of the source, for a register of 16. -/
def crcWord (s : BitVec 16) : UInt32 := UInt32.ofBitVec (s.setWidth 32)

/-! ## The loops -/

theorem and_one_eq (c : UInt32) : c &&& 0x0001 = if c.toBitVec.getLsbD 0 then 1 else 0 := by
  refine UInt32.toBitVec_inj.mp ?_
  rw [UInt32.toBitVec_and, show (0x0001 : UInt32).toBitVec = 1#32 from rfl, BitVec.and_one_eq_setWidth_ofBool_getLsbD]
  cases c.toBitVec.getLsbD 0 <;> rfl

theorem crcWord_shift (s : BitVec 16) : crcWord s >>> 1 = crcWord (s >>> 1) := by
  refine UInt32.toBitVec_inj.mp ?_
  simp [crcWord, BitVec.setWidth_ushiftRight]

theorem crcWord_poly (s : BitVec 16) : crcWord s ^^^ POLY = crcWord (s ^^^ generator) := by
  refine UInt32.toBitVec_inj.mp ?_
  simp only [crcWord, UInt32.toBitVec_xor, UInt32.toBitVec_ofBitVec, BitVec.setWidth_xor]
  rfl

/-- One turn of the inner loop is one step of the register. -/
theorem crc16Bit_eq (s : BitVec 16) (data : UInt32) :
    crc16Bit (crcWord s, data) = (crcWord (step generator s (data.toBitVec.getLsbD 0)), data >>> 1) := by
  have hlow : (crcWord s).toBitVec.getLsbD 0 = s.getLsbD 0 := by simp [crcWord]
  simp only [crc16Bit, step, and_one_eq, hlow]
  cases s.getLsbD 0 <;> cases data.toBitVec.getLsbD 0 <;> simp [crcWord_shift, crcWord_poly]

theorem crc16Bit_iterate (n : Nat) (s : BitVec 16) (data : UInt32) :
    (crc16Bit^[n] (crcWord s, data)).1 = crcWord (feed generator s ((List.range n).map data.toBitVec.getLsbD)) := by
  induction n generalizing s data with
  | zero => rfl
  | succ n ih =>
    rw [Function.iterate_succ_apply, crc16Bit_eq, ih, List.range_succ_eq_map, List.map_cons, feed_cons, List.map_map]
    congr 2
    refine List.map_congr_left fun i _ => ?_
    simp [Nat.add_comm 1 i]

theorem mask_byte (b : UInt8) : 0xff &&& b.toUInt32 = b.toUInt32 := by
  refine UInt32.toNat_inj.mp ?_
  have hmod : b.toNat &&& 255 = b.toNat % 256 := Nat.and_two_pow_sub_one_eq_mod b.toNat 8
  rw [UInt32.toNat_and, UInt8.toNat_toUInt32, Nat.and_comm, show (0xff : UInt32).toNat = 255 from rfl, hmod]
  exact Nat.mod_eq_of_lt b.toNat_lt

theorem crc16Byte_eq (s : BitVec 16) (b : UInt8) :
    crc16Byte (crcWord s) b = crcWord (feed generator s (byteBits b)) := by
  have hbits : b.toUInt32.toBitVec.getLsbD = b.toBitVec.getLsbD := rfl
  rw [crc16Byte, crc16Bit_iterate, mask_byte, hbits]
  rfl

theorem messageBits_cons (b : UInt8) (l : List UInt8) : messageBits (b :: l) = byteBits b ++ messageBits l := rfl

theorem crc16_foldl (l : List UInt8) (s : BitVec 16) :
    l.foldl crc16Byte (crcWord s) = crcWord (feed generator s (messageBits l)) := by
  induction l generalizing s with
  | nil => rfl
  | cons b l ih =>
    rw [List.foldl_cons, crc16Byte_eq, ih, messageBits_cons, feed_append]

theorem crcBytes_eq (l : List UInt8) : crcBytes l = crc16Final (crcWord (feed generator 0xffff (messageBits l))) := by
  rw [crcBytes, ← crc16_foldl]
  rfl

/-! ## The last lines -/

theorem getLsbD_255 {i : Nat} (hi : i < 16) : (255#16).getLsbD i = decide (i < 8) := by
  rw [BitVec.getLsbD_ofNat, show (255 : Nat) = 2 ^ 8 - 1 from rfl, Nat.testBit_two_pow_sub_one]
  simp [hi]

/-- They complement the register and swap its bytes. -/
theorem getLsbD_crc16Final (s : BitVec 16) {i : Nat} (hi : i < 16) :
    (crc16Final (crcWord s)).toBitVec.getLsbD i = !s.getLsbD (if i < 8 then i + 8 else i - 8) := by
  have hi32 : 8 + i < 32 := by omega
  by_cases h8 : i < 8
  · have hraw : (crc16Final (crcWord s)).toBitVec.getLsbD i =
        (decide (i < 16) && (decide (8 + i < 32) && (!decide (8 + i < 32) || !s.getLsbD (8 + i))) &&
          (255#16).getLsbD i) := by
      simp [crc16Final, crcWord, h8]
    rw [hraw, getLsbD_255 hi, decide_eq_true hi, decide_eq_true hi32, decide_eq_true h8, if_pos h8, Nat.add_comm 8 i]
    simp
  · have hlow : i - 8 < 16 := by omega
    have hraw : (crc16Final (crcWord s)).toBitVec.getLsbD i =
        (decide (i < 16) && (decide (i - 8 < 16) && !s.getLsbD (i - 8)) ||
          decide (i < 16) && (decide (8 + i < 32) && (!decide (8 + i < 32) || !s.getLsbD (8 + i))) &&
            (255#16).getLsbD i) := by
      simp [crc16Final, crcWord, h8]
    rw [hraw, getLsbD_255 hi, decide_eq_true hi, decide_eq_true hlow, decide_eq_false h8, if_neg h8]
    simp

theorem crc16Final_injective {s s' : BitVec 16} (h : crc16Final (crcWord s) = crc16Final (crcWord s')) : s = s' := by
  have hbit (i : Nat) (hi : i < 16) :
      s.getLsbD (if i < 8 then i + 8 else i - 8) = s'.getLsbD (if i < 8 then i + 8 else i - 8) := by
    have hget := congrArg (·.toBitVec.getLsbD i) h
    simp only [getLsbD_crc16Final s hi, getLsbD_crc16Final s' hi] at hget
    exact Bool.not_inj hget
  refine BitVec.eq_of_getLsbD_eq fun i hi => ?_
  by_cases h8 : i < 8
  · have hswap := hbit (i + 8) (by omega)
    rwa [if_neg (by omega), Nat.add_sub_cancel] at hswap
  · have hswap := hbit (i - 8) (by omega)
    rwa [if_pos (by omega), Nat.sub_add_cancel (by omega)] at hswap

/-! ## Two messages -/

theorem length_byteBits (b : UInt8) : (byteBits b).length = 8 := by simp [byteBits]

theorem length_messageBits (l : List UInt8) : (messageBits l).length = 8 * l.length := by
  induction l with
  | nil => rfl
  | cons b l ih =>
    rw [messageBits_cons, List.length_append, length_byteBits, ih, List.length_cons]
    omega

theorem byteBits_injective {b b' : UInt8} (h : byteBits b = byteBits b') : b = b' := by
  refine UInt8.toBitVec_inj.mp (BitVec.eq_of_getLsbD_eq fun i hi => ?_)
  exact List.map_inj_left.mp h i (List.mem_range.mpr hi)

theorem messageBits_injective {m m' : List UInt8} (h : messageBits m = messageBits m') : m = m' := by
  have hlen : m.length = m'.length := by
    have hbits := congrArg List.length h
    rw [length_messageBits, length_messageBits] at hbits
    omega
  induction m generalizing m' with
  | nil => exact (List.length_eq_zero_iff.mp hlen.symm).symm
  | cons b m ih =>
    cases m' with
    | nil => cases hlen
    | cons b' m' =>
      rw [messageBits_cons, messageBits_cons] at h
      obtain ⟨hbyte, hrest⟩ := List.append_inj h (by rw [length_byteBits, length_byteBits])
      rw [byteBits_injective hbyte, ih hrest (Nat.succ.inj hlen)]

theorem length_messageBits_eq {m m' : List UInt8} (h : m.length = m'.length) :
    (messageBits m).length = (messageBits m').length := by
  rw [length_messageBits, length_messageBits, h]

/-- Two bit strings of one length that differ do so somewhere. -/
theorem mem_zipWith_xor {l l' : List Bool} (h : l.length = l'.length) (hne : l ≠ l') : true ∈ List.zipWith xor l l' := by
  induction l generalizing l' with
  | nil => exact absurd (List.length_eq_zero_iff.mp h.symm).symm hne
  | cons b l ih =>
    cases l' with
    | nil => cases h
    | cons b' l' =>
      rw [List.zipWith_cons_cons, List.mem_cons]
      by_cases hb : b = b'
      · exact .inr (ih (Nat.succ.inj h) fun he => hne (by rw [hb, he]))
      · refine .inl ?_
        cases b <;> cases b' <;> first | rfl | exact absurd rfl hb

theorem mem_differences {m m' : List UInt8} (h : m.length = m'.length) (hne : m ≠ m') : true ∈ differences m m' :=
  mem_zipWith_xor (length_messageBits_eq h) fun he => hne (messageBits_injective he)

/-- Two messages have one CRC exactly if their difference leaves nothing in the register. -/
theorem crcBytes_eq_iff {m m' : List UInt8} (h : m.length = m'.length) :
    crcBytes m = crcBytes m' ↔ feed generator 0 (differences m m') = 0 := by
  rw [crcBytes_eq, crcBytes_eq, differences, ← feed_eq_iff generator (length_messageBits_eq h) 0xffff]
  constructor
  · exact crc16Final_injective
  · intro he
    rw [he]

/-! ## The generator -/

theorem generator_msb : generator.msb = true := by decide

theorem generator_odd : registerParity generator = true := by decide

/-- It does not come back within the bits of 120 bytes. -/
theorem generator_neverBack : neverBack generator 959 generator = true := by decide +kernel

/-- Errors in a message of `n` bytes that are to be detected: within 16 bits,
an odd number of them, or two in at most 120 bytes. -/
inductive Detectable (n : Nat) (errors : List Bool) : Prop where
  | burst (k : Nat) (h : ∀ i, errors[i]? = some true → k ≤ i ∧ i < k + 16)
  | odd (h : errors.count true % 2 = 1)
  | two (h : errors.count true = 2) (hn : n ≤ 120)

theorem Detectable.feed_ne_zero {n : Nat} {errors : List Bool} (h : Detectable n errors) (hne : true ∈ errors)
    (hlen : errors.length = 8 * n) : feed generator 0 errors ≠ 0 := by
  cases h with
  | burst k h => exact feed_burst_ne_zero generator_msb hne h
  | odd h => exact feed_odd_ne_zero generator_odd h
  | two h hn =>
    exact feed_two_ne_zero generator_msb h fun d hpos hd => feed_ne_of_neverBack generator_neverBack hpos (by omega)

/-- **What `crc16` detects**, over messages of any length it takes: errors that
lie within 16 bits, any odd number of errors, and two errors in up to 120
bytes. -/
theorem crc16_detects (data data' : Mem UInt8) (n : UInt16)
    (hne : data.slice 0 n.toNat ≠ data'.slice 0 n.toNat)
    (herrors : Detectable n.toNat (differences (data.slice 0 n.toNat) (data'.slice 0 n.toNat))) :
    val (crc16 data n) ≠ val (crc16 data' n) := by
  have hlen : (data.slice 0 n.toNat).length = (data'.slice 0 n.toNat).length := by simp
  have hbits : (differences (data.slice 0 n.toNat) (data'.slice 0 n.toNat)).length = 8 * n.toNat := by
    simp [differences, length_messageBits]
  rw [crc16_val, crc16_val]
  intro he
  exact herrors.feed_ne_zero (mem_differences hlen hne) hbits ((crcBytes_eq_iff hlen).mp he)

/-- One flipped bit in a byte. -/
theorem crc16_detects_bit : val (crc16 (fun _ => 0x41) 3) ≠ val (crc16 (fun i => if i = 1 then 0x43 else 0x41) 3) :=
  crc16_detects _ _ 3 (by decide) (.odd (by decide))

end OflMetrics
