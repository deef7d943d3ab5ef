/-
Where the two readers of a `packet_t` look for its frame.

`dump_hex` prints the bytes from `offset` on (`dumpHexBytes_val`);
`packet2paquet` reads from the start of `data` whatever `offset` says. So a
frame at an offset is decoded as itself only where the bytes in both places
agree (`decoded_offset_iff`), as they do at offset 0.
-/
import OflMetrics.PaquetFacts

namespace OflMetrics

open Embed Embed.Traced

/-! ## `dump_hex` -/

def PER_ROW : Nat := 16

/-- `n` columns of row `idxLigne` from `idxChar` on: the bytes printed and the
counter after them, none if the function returned. -/
def dumpHexRow (p : Packet) (idxLigne : Nat) : Nat → Nat → UInt8 → Codec (List UInt8 × Option UInt8)
  | 0, _, offset => return ([], some offset)
  | n + 1, idxChar, offset => do
    if offset ≥ p.length then return ([], none)
    let c ← Mem.getT .pkData p.data (idxLigne * PER_ROW + idxChar + p.offset.toNat)
    let (cs, next) ← dumpHexRow p idxLigne n (idxChar + 1) (offset + 1)
    return (c :: cs, next)

/-- `n` rows from `idxLigne` on. -/
def dumpHexRows (p : Packet) : Nat → Nat → UInt8 → Codec (List UInt8)
  | 0, _, _ => return []
  | n + 1, idxLigne, offset => do
    let (cs, next) ← dumpHexRow p idxLigne PER_ROW 0 offset
    match next with
    | none => return cs
    | some offset => return cs ++ (← dumpHexRows p n (idxLigne + 1) offset)

/-- The bytes `dump_hex` prints of a packet, in order. -/
def dumpHexBytes (p : Packet) : Codec (List UInt8) := dumpHexRows p (p.length.toNat / PER_ROW + 1) 0 0

variable (p : Packet)

/-- A row prints up to the end of the frame, and returns when it is past it. -/
theorem dumpHexRow_val (idxLigne : Nat) : ∀ n idxChar, idxLigne * PER_ROW + idxChar ≤ p.length.toNat →
    val (dumpHexRow p idxLigne n idxChar (UInt8.ofNat (idxLigne * PER_ROW + idxChar))) =
      (p.data.slice (p.offset.toNat + (idxLigne * PER_ROW + idxChar))
          (min n (p.length.toNat - (idxLigne * PER_ROW + idxChar))),
        if idxLigne * PER_ROW + idxChar + n ≤ p.length.toNat then
          some (UInt8.ofNat (idxLigne * PER_ROW + idxChar + n))
        else none)
  | 0, idxChar, hle => by
    rw [Nat.add_zero, if_pos hle, Nat.zero_min, Mem.slice_zero]
    rfl
  | n + 1, idxChar, hle => by
    have hmax := p.length.toNat_lt
    have hoffset : (UInt8.ofNat (idxLigne * PER_ROW + idxChar)).toNat = idxLigne * PER_ROW + idxChar := by
      rw [UInt8.toNat_ofNat']
      omega
    by_cases hge : UInt8.ofNat (idxLigne * PER_ROW + idxChar) ≥ p.length
    · have hend : idxLigne * PER_ROW + idxChar = p.length.toNat := by
        rw [ge_iff_le, UInt8.le_iff_toNat_le, hoffset] at hge
        omega
      simp only [dumpHexRow, if_pos hge, val_pure]
      rw [hend, if_neg (by omega), Nat.sub_self, Nat.min_zero, Mem.slice_zero]
    · have hlt : idxLigne * PER_ROW + idxChar < p.length.toNat := by
        rw [ge_iff_le, UInt8.le_iff_toNat_le, hoffset] at hge
        omega
      have hnext : UInt8.ofNat (idxLigne * PER_ROW + idxChar) + 1 = UInt8.ofNat (idxLigne * PER_ROW + (idxChar + 1)) := by
        rw [← Nat.add_assoc]
        exact (UInt8.ofNat_add _ 1).symm
      have ih := dumpHexRow_val idxLigne n (idxChar + 1) (by omega)
      have hmin : min (n + 1) (p.length.toNat - (idxLigne * PER_ROW + idxChar)) =
          min n (p.length.toNat - (idxLigne * PER_ROW + (idxChar + 1))) + 1 := by omega
      simp only [dumpHexRow, if_neg hge, val_bind, val_pure, Mem.val_getT, hnext, ih]
      rw [hmin, Mem.slice_succ, Nat.add_comm _ p.offset.toNat,
        show idxLigne * PER_ROW + (idxChar + 1) + n = idxLigne * PER_ROW + idxChar + (n + 1) by omega]
      rfl

theorem dumpHexRows_val : ∀ n idxLigne, idxLigne * PER_ROW ≤ p.length.toNat →
    p.length.toNat < (idxLigne + n) * PER_ROW →
    val (dumpHexRows p n idxLigne (UInt8.ofNat (idxLigne * PER_ROW))) =
      p.data.slice (p.offset.toNat + idxLigne * PER_ROW) (p.length.toNat - idxLigne * PER_ROW)
  | 0, idxLigne, hle, hlt => absurd hle (Nat.not_le_of_lt hlt)
  | n + 1, idxLigne, hle, hlt => by
    have hrow := dumpHexRow_val p idxLigne PER_ROW 0 (by omega)
    rw [Nat.add_zero] at hrow
    simp only [dumpHexRows, val_bind, hrow]
    by_cases hmore : idxLigne * PER_ROW + PER_ROW ≤ p.length.toNat
    · have hsucc : idxLigne * PER_ROW + PER_ROW = (idxLigne + 1) * PER_ROW := by rw [Nat.succ_mul]
      have ih := dumpHexRows_val n (idxLigne + 1) (by omega) (by rwa [show idxLigne + 1 + n = idxLigne + (n + 1) by omega])
      have hsplit : p.length.toNat - idxLigne * PER_ROW = PER_ROW + (p.length.toNat - (idxLigne + 1) * PER_ROW) := by omega
      rw [if_pos hmore]
      simp only [val_bind, val_pure]
      rw [hsucc, ih, hsplit, Mem.slice_add, Nat.min_eq_left (by omega), ← hsucc, Nat.add_assoc]
    · rw [if_neg hmore, Nat.min_eq_right (by omega)]
      rfl

/-- `dump_hex` prints the `length` bytes from `offset` on. -/
theorem dumpHexBytes_val : val (dumpHexBytes p) = p.data.slice p.offset.toNat p.length.toNat := by
  have hrows := dumpHexRows_val p (p.length.toNat / PER_ROW + 1) 0 (by omega) (by
    rw [Nat.zero_add, Nat.mul_comm]
    exact Nat.lt_mul_div_succ _ (by decide))
  rw [dumpHexBytes]
  simpa using hrows

/-! ## `packet2paquet` -/

/-- The packet holds a frame where `dump_hex` looks for it. -/
structure Packet.Holds (pk : Packet) (frame : List UInt8) : Prop where
  length : pk.length.toNat = frame.length
  data : pk.data.slice pk.offset.toNat frame.length = frame

theorem Packet.Holds.dumped {pk : Packet} {frame : List UInt8} (h : pk.Holds frame) : val (dumpHexBytes pk) = frame := by
  rw [dumpHexBytes_val, h.length, h.data]

theorem Packet.Holds.byte {pk : Packet} {frame : List UInt8} (h : pk.Holds frame) {i : Nat} (hi : i < frame.length) :
    pk.data (pk.offset.toNat + i) = frame[i] := by
  have hget := List.getElem_of_eq h.data (i := i) (by simpa using hi)
  simpa using hget

/-- The two paquets have the same message: all fields but the CRC. -/
structure Paquet.SameMessage (pq pq' : Paquet) : Prop where
  dpan : pq.dpan = pq'.dpan
  dmac : pq.dmac = pq'.dmac
  span : pq.span = pq'.span
  smac : pq.smac = pq'.smac
  datalen : pq.datalen = pq'.datalen
  data : pq.data = pq'.data

theorem load_eq_iff {m m' : Mem UInt8} {off n : Nat} :
    m.load off n = m'.load off n ↔ ∀ i < n, m (off + i) = m' (off + i) := by
  rw [← Vector.toList_inj, Mem.load_toList, Mem.load_toList]
  constructor
  · intro h i hi
    exact Mem.eq_of_slice_eq h hi
  · intro h
    exact Mem.slice_congr h

theorem copy_eq_iff {m src src' : Mem UInt8} {k n : Nat} :
    m.copy 0 (src.drop k) n = m.copy 0 (src'.drop k) n ↔ ∀ i < n, src (k + i) = src' (k + i) := by
  constructor
  · intro h i hi
    have hi' := congrFun h i
    simpa [Mem.copy, Mem.drop, hi] using hi'
  · intro h
    funext i
    by_cases hi : i < n
    · simp [Mem.copy, Mem.drop, hi, h i hi]
    · simp [Mem.copy, hi]

/-- Two packets of one length are decoded alike when their bytes from the
addresses to the end of the payload are the same. -/
theorem sameMessage_iff {pk pk' : Packet} (hlen : pk.length = pk'.length) (h25 : 25 ≤ pk.length.toNat) (pq : Paquet) :
    (val (packet2paquet pk pq)).2.SameMessage (val (packet2paquet pk' pq)).2 ↔
      ∀ i, 3 ≤ i → i + 2 < pk.length.toNat → pk.data i = pk'.data i := by
  rw [packet2paquet_val pk pq h25, packet2paquet_val pk' pq (hlen ▸ h25)]
  constructor
  · rintro ⟨hdpan, hdmac, hspan, hsmac, -, hdata⟩ i h3 hi
    simp only [Packet.decoded, ← hlen] at hdpan hdmac hspan hsmac hdata
    rw [load_eq_iff] at hdpan hdmac hspan hsmac
    rw [copy_eq_iff] at hdata
    have hat (off : Nat) (hoff : off ≤ i) (h : pk.data (off + (i - off)) = pk'.data (off + (i - off))) :
        pk.data i = pk'.data i := by
      rwa [Nat.add_sub_cancel' hoff] at h
    by_cases h5 : i < 5
    · exact hat 3 h3 (hdpan _ (by omega))
    · by_cases h13 : i < 13
      · exact hat 5 (by omega) (hdmac _ (by omega))
      · by_cases h15 : i < 15
        · exact hat 13 (by omega) (hspan _ (by omega))
        · by_cases h23 : i < 23
          · exact hat 15 (by omega) (hsmac _ (by omega))
          · exact hat 23 (by omega) (hdata _ (by omega))
  · intro h
    simp only [Packet.decoded, ← hlen]
    refine ⟨load_eq_iff.mpr fun i hi => ?_, load_eq_iff.mpr fun i hi => ?_, load_eq_iff.mpr fun i hi => ?_,
      load_eq_iff.mpr fun i hi => ?_, rfl, copy_eq_iff.mpr fun i hi => ?_⟩ <;>
      exact h _ (by omega) (by omega)

/-- **A frame at an offset** is dumped as itself, and decoded as it is at
offset 0 exactly when its bytes, from the addresses to the end of the payload,
are also the ones at the start of `data`. -/
theorem decoded_offset_iff (frame : List UInt8) (pk pk₀ : Packet) (pq : Paquet)
    (hlen : 25 ≤ frame.length) (h : pk.Holds frame) (h₀ : pk₀.Holds frame) (hoffset : pk₀.offset = 0) :
    val (dumpHexBytes pk) = frame ∧
      ((val (packet2paquet pk pq)).2.SameMessage (val (packet2paquet pk₀ pq)).2 ↔
        ∀ i, 3 ≤ i → i + 2 < frame.length → pk.data i = pk.data (pk.offset.toNat + i)) := by
  have hsame : pk.length = pk₀.length := UInt8.toNat_inj.mp (h.length.trans h₀.length.symm)
  refine ⟨h.dumped, ?_⟩
  rw [sameMessage_iff hsame (by rw [h.length]; exact hlen) pq, h.length]
  refine forall_congr' fun i => imp_congr_right fun _ => imp_congr_right fun hi => ?_
  have hstart := h₀.byte (i := i) (by omega)
  rw [hoffset, UInt8.toNat_zero, Nat.zero_add] at hstart
  rw [hstart, h.byte (i := i) (by omega)]

/-- A frame with a payload of 32 bytes. -/
def sampleFrame : List UInt8 := Frame.header ++ (List.range 52).map (fun i => UInt8.ofNat (4 * i + 17)) ++ [0x9F, 0]

/-- A packet with a frame from position `o` on, and `start` before it. -/
def frameAt (frame start : List UInt8) (o : Nat) : Packet where
  length := UInt8.ofNat frame.length
  offset := UInt8.ofNat o
  data := fun i => if i < o then start.getD i 0 else frame.getD (i - o) 0

theorem frameAt_holds {frame start : List UInt8} {o : Nat} (hlen : frame.length ≤ 125) (ho : o ≤ 125) :
    (frameAt frame start o).Holds frame := by
  have hoff : (frameAt frame start o).offset.toNat = o := by
    rw [frameAt, UInt8.toNat_ofNat']
    omega
  refine ⟨?_, List.ext_getElem (by simp) fun i _ hi => ?_⟩
  · rw [frameAt, UInt8.toNat_ofNat']
    omega
  · rw [Mem.getElem_slice, hoff]
    simp [frameAt, hi]

/-- The frame at 60, behind a copy of itself that an earlier reception left at the start. -/
theorem decoded_offset_iff_twice :
    let pk := frameAt sampleFrame sampleFrame 60
    val (dumpHexBytes pk) = sampleFrame ∧
      (val (packet2paquet pk .zero)).2.SameMessage (val (packet2paquet (frameAt sampleFrame [] 0) .zero)).2 := by
  intro pk
  have hholds : pk.Holds sampleFrame := frameAt_holds (by decide) (by decide)
  have hstart : (frameAt sampleFrame [] 0).Holds sampleFrame := frameAt_holds (by decide) (by decide)
  obtain ⟨hdump, hsame⟩ := decoded_offset_iff sampleFrame pk (frameAt sampleFrame [] 0) .zero (by decide) hholds hstart rfl
  have hagree : ∀ i, i < 57 → pk.data i = pk.data (60 + i) := by decide
  exact ⟨hdump, hsame.mpr fun i _ hi => hagree i (by have : sampleFrame.length = 57 := rfl; omega)⟩

/-- One byte further on, the destination network is read a byte too early. -/
theorem offset_misread :
    let frame := Frame.header ++ List.replicate 20 0x0D ++ [0, 0]
    (frameAt frame [] 1).Holds frame ∧ (frameAt frame [] 0).Holds frame ∧ (frameAt frame [] 0).offset = 0 ∧
      ¬ (val (packet2paquet (frameAt frame [] 1) .zero)).2.SameMessage
        (val (packet2paquet (frameAt frame [] 0) .zero)).2 := by
  intro frame
  refine ⟨frameAt_holds (by decide) (by decide), frameAt_holds (by decide) (by decide), rfl, fun h => ?_⟩
  exact absurd h.dpan (by decide)

end OflMetrics
