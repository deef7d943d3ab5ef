/-
What the frame codec computes. `Frame` is a message as the application
means it: addresses and a payload that fits; `Frame.bytes` is its layout on
the air.

* `crc16_val`: the CRC is a fold over the payload bytes.
* `paquet2packet_bytes`: the encoder writes exactly `Frame.bytes`.
* `packet2paquet_frame`: from a buffer that starts with the bytes of a
  frame the decoder reads that frame back, whatever the destination held.
* `paquet2packet_reads`, `packet2paquet_reads` and the like: the buffer
  elements the two functions touch.
-/
import OflMetrics.Paquet

namespace OflMetrics

open Embed Embed.Traced

/-! ## The CRC -/

/-- The CRC of a byte string. -/
def crcBytes (l : List UInt8) : UInt16 := crc16Final (l.foldl crc16Byte 0xffff)

theorem crc16Loop_val (data : Mem UInt8) :
    ∀ n p crc, val (crc16Loop data n p crc) = (data.slice p n).foldl crc16Byte crc
  | 0, p, crc => by simp [crc16Loop]
  | n + 1, p, crc => by
    simp only [crc16Loop, val_bind, Mem.val_getT, crc16Loop_val data n, Mem.slice_succ, List.foldl_cons]

theorem crc16Loop_log (data : Mem UInt8) :
    ∀ n p crc, log (crc16Loop data n p crc) = (Mem.span p n).map (.read .pqData)
  | 0, p, crc => by simp [crc16Loop, Mem.span]
  | n + 1, p, crc => by
    simp only [crc16Loop, log_bind, Mem.log_getT, crc16Loop_log data n, Mem.span_succ, List.map_cons,
      List.singleton_append]

theorem crc16_val (data : Mem UInt8) (n : UInt16) : val (crc16 data n) = crcBytes (data.slice 0 n.toNat) := by
  by_cases h : n = 0
  · subst h; simp [crc16, crcBytes]; decide
  · simp [crc16, h, crc16Loop_val, crcBytes]

theorem crc16_log (data : Mem UInt8) (n : UInt16) :
    log (crc16 data n) = (Mem.span 0 n.toNat).map (.read .pqData) := by
  by_cases h : n = 0
  · subst h; simp [crc16, Mem.span]
  · simp [crc16, h, crc16Loop_log]

/-! ## Frames -/

/-- A message that fits one frame. -/
structure Frame where
  dpan : Vector UInt8 2
  dmac : Vector UInt8 8
  span : Vector UInt8 2
  smac : Vector UInt8 8
  payload : List UInt8
  fits : payload.length ≤ 100

namespace Frame

/-- The two trailer bytes the encoder writes: the low byte of the payload's
CRC, and zero. -/
def trailer (payload : List UInt8) : Vector UInt8 2 := #v[(crcBytes payload &&& 0xFF).toUInt8, 0]

/-- Frame control and sequence number. -/
def header : List UInt8 := [0x01, 0xCC, 0x0]

/-- The layout on the air. -/
def bytes (f : Frame) : List UInt8 :=
  header ++ (f.dpan.toList ++ (f.dmac.toList ++ (f.span.toList ++ (f.smac.toList ++
    (f.payload ++ (trailer f.payload).toList)))))

@[simp] theorem length_bytes (f : Frame) : f.bytes.length = 25 + f.payload.length := by
  simp [bytes, header]
  omega

end Frame

/-- The payload. -/
def Paquet.payload (pq : Paquet) : List UInt8 := pq.data.slice 0 pq.datalen.toNat

/-- The message in a paquet whose payload fits. -/
def Paquet.frame (pq : Paquet) (h : pq.datalen.toNat ≤ 100) : Frame where
  dpan := pq.dpan
  dmac := pq.dmac
  span := pq.span
  smac := pq.smac
  payload := pq.data.slice 0 pq.datalen.toNat
  fits := by simpa using h

/-- The CRC bytes the encoder stores in the paquet it is given. -/
def Paquet.withCrc (pq : Paquet) : Paquet := { pq with crc := Frame.trailer (pq.data.slice 0 pq.datalen.toNat) }

/-- The buffer `paquet2packet` leaves, from the inside out in program order. -/
def Paquet.encoded (pq : Paquet) (data : Mem UInt8) : Mem UInt8 :=
  let data := data.fill 0 0 maxPayloadSize
  let data : Mem UInt8 := Function.update (Function.update (Function.update data 0 0x01) 1 0xCC) 2 0x0
  let data := (((data.store 3 pq.dpan).store 5 pq.dmac).store 13 pq.span).store 15 pq.smac
  let data := data.copy 23 pq.data pq.datalen.toNat
  data.store (23 + pq.datalen.toNat) (Frame.trailer (pq.data.slice 0 pq.datalen.toNat))

theorem shl8_and_ff (c : UInt16) : ((c.toUInt32 <<< 8) &&& 0xFF).toUInt8 = 0 := by
  apply UInt8.toNat_inj.mp
  simp [Nat.shiftLeft_eq]

theorem paquet2packet_val (pq : Paquet) (pk : Packet) :
    val (paquet2packet pq pk) = (1, pq.withCrc,
      { length := UInt8.ofNat (pq.datalen.toNat + 25), offset := 0, data := pq.encoded pk.data }) := by
  have hdrop : pq.data.drop 0 = pq.data := funext fun i => by simp [Mem.drop]
  simp only [paquet2packet, val_bind, val_pure, Mem.val_fillT, Mem.val_setT, Mem.val_storeT, Mem.val_copyT,
    crc16_val, UInt8.toNat_toUInt16, shl8_and_ff, hdrop]
  rfl

/-- The encoder never fails. -/
theorem paquet2packet_ne_zero (pq : Paquet) (pk : Packet) : (val (paquet2packet pq pk)).1 ≠ 0 := by
  rw [paquet2packet_val]
  exact UInt8.zero_ne_one.symm

theorem encoded_slice (pq : Paquet) (data : Mem UInt8) (h : pq.datalen.toNat ≤ 100) :
    (pq.encoded data).slice 0 (25 + pq.datalen.toNat) = (pq.frame h).bytes := by
  have hn : 25 + pq.datalen.toNat = 3 + (2 + (8 + (2 + (8 + (pq.datalen.toNat + 2))))) := by omega
  have hheader : (pq.encoded data).slice 0 3 = Frame.header := by
    simp (disch := omega) only [Paquet.encoded, Mem.slice_store_other, Mem.slice_copy_other]
    simp [Mem.slice_succ, Frame.header]
  have hdpan : (pq.encoded data).slice 3 2 = pq.dpan.toList := by
    simp (disch := omega) only [Paquet.encoded, Mem.slice_store_other, Mem.slice_copy_other, Mem.slice_store_self]
  have hdmac : (pq.encoded data).slice 5 8 = pq.dmac.toList := by
    simp (disch := omega) only [Paquet.encoded, Mem.slice_store_other, Mem.slice_copy_other, Mem.slice_store_self]
  have hspan : (pq.encoded data).slice 13 2 = pq.span.toList := by
    simp (disch := omega) only [Paquet.encoded, Mem.slice_store_other, Mem.slice_copy_other, Mem.slice_store_self]
  have hsmac : (pq.encoded data).slice 15 8 = pq.smac.toList := by
    simp (disch := omega) only [Paquet.encoded, Mem.slice_store_other, Mem.slice_copy_other, Mem.slice_store_self]
  have hpayload : (pq.encoded data).slice 23 pq.datalen.toNat = pq.data.slice 0 pq.datalen.toNat := by
    simp (disch := omega) only [Paquet.encoded, Mem.slice_store_other, Mem.slice_copy_self]
  have htrailer : (pq.encoded data).slice (23 + pq.datalen.toNat) 2 =
      (Frame.trailer (pq.data.slice 0 pq.datalen.toNat)).toList := by
    simp only [Paquet.encoded, Mem.slice_store_self]
  rw [hn]
  simp only [Mem.slice_add, Nat.zero_add, Nat.reduceAdd, hheader, hdpan, hdmac, hspan, hsmac, hpayload, htrailer]
  rfl

theorem encoded_length {n : Nat} (h : n ≤ 100) : (UInt8.ofNat (n + 25)).toNat = 25 + n := by
  rw [UInt8.toNat_ofNat']
  omega

/-- The encoder writes exactly the bytes of the frame, and their number. -/
theorem paquet2packet_bytes (pq : Paquet) (pk : Packet) (h : pq.datalen.toNat ≤ 100) :
    (val (paquet2packet pq pk)).2.2.length.toNat = 25 + pq.datalen.toNat ∧
      (val (paquet2packet pq pk)).2.2.data.slice 0 (25 + pq.datalen.toNat) = (pq.frame h).bytes := by
  rw [paquet2packet_val]
  exact ⟨encoded_length h, encoded_slice pq pk.data h⟩

/-- A byte behind the frame is zero up to the end of the buffer, and what it
was before behind that. -/
theorem encoded_behind (pq : Paquet) (data : Mem UInt8) {i : Nat} (hi : 25 + pq.datalen.toNat ≤ i) :
    pq.encoded data i = if i < maxPayloadSize then 0 else data i := by
  have hupd : ∀ (m : Mem UInt8), Function.update (Function.update (Function.update m 0 0x01) 1 0xCC) 2 0x0 i = m i := by
    intro m
    simp [show i ≠ 0 by omega, show i ≠ 1 by omega, show i ≠ 2 by omega]
  simp (disch := omega) only [Paquet.encoded, Mem.store_apply_other, Mem.copy_apply_other, hupd]
  simp [Mem.fill]

theorem paquet2packet_reads (pq : Paquet) (pk : Packet) :
    Access.reads .pqData (log (paquet2packet pq pk)) =
      Mem.span 0 pq.datalen.toNat ++ Mem.span 0 pq.datalen.toNat := by
  simp [paquet2packet, crc16_log]

/-- The encoder clears the buffer, then writes the frame from its first byte
to its last. -/
theorem paquet2packet_writes (pq : Paquet) (pk : Packet) :
    Access.writes .pkData (log (paquet2packet pq pk)) =
      Mem.span 0 maxPayloadSize ++ Mem.span 0 (25 + pq.datalen.toNat) := by
  have hn : 25 + pq.datalen.toNat = 3 + (2 + (8 + (2 + (8 + (pq.datalen.toNat + 2))))) := by omega
  rw [hn]
  simp only [Mem.span_add, Nat.zero_add, Nat.reduceAdd]
  simp [paquet2packet, crc16_log, show Mem.span 0 3 = [0, 1, 2] by decide]

/-! ## Decoding -/

/-- The paquet `packet2paquet` makes of a packet that is long enough. -/
def Packet.decoded (pk : Packet) (data : Mem UInt8) : Paquet where
  dpan := pk.data.load 3 2
  dmac := pk.data.load 5 8
  span := pk.data.load 13 2
  smac := pk.data.load 15 8
  datalen := UInt8.ofNat (pk.length.toNat - 25)
  data := (data.fill 0 0 paquetMaxDatasize).copy 0 (pk.data.drop 23) (pk.length.toNat - 25)
  crc := pk.data.load (25 + (pk.length.toNat - 25)) 2

theorem Packet.length_sub_mod (pk : Packet) : (pk.length.toNat - 25) % 256 = pk.length.toNat - 25 := by
  have := pk.length.toNat_lt
  omega

theorem decoded_datalen (pk : Packet) : (UInt8.ofNat (pk.length.toNat - 25)).toNat = pk.length.toNat - 25 := by
  rw [UInt8.toNat_ofNat']
  exact pk.length_sub_mod

theorem packet2paquet_val (pk : Packet) (pq : Paquet) (h : 25 ≤ pk.length.toNat) :
    val (packet2paquet pk pq) = (1, pk.decoded pq.data) := by
  have hlt : ¬ pk.length.toNat < 25 := by omega
  simp only [packet2paquet, val_bind, val_pure, Mem.val_fillT, Mem.val_loadT, Mem.val_copyT,
    Nat.reduceAdd, if_neg hlt, decoded_datalen]
  rfl

/-- A runt is refused, and clears the payload alone. -/
theorem packet2paquet_runt (pk : Packet) (pq : Paquet) (h : pk.length.toNat < 25) :
    val (packet2paquet pk pq) = (-1, { pq with data := pq.data.fill 0 0 paquetMaxDatasize }) := by
  simp only [packet2paquet, val_bind, val_pure, Mem.val_fillT, Nat.reduceAdd, if_pos h]

theorem packet2paquet_reads (pk : Packet) (pq : Paquet) (h : 25 ≤ pk.length.toNat) :
    Access.reads .pkData (log (packet2paquet pk pq)) =
      Mem.span 3 (pk.length.toNat - 5) ++ Mem.span pk.length.toNat 2 := by
  have hn : pk.length.toNat - 5 = 2 + (8 + (2 + (8 + (pk.length.toNat - 25)))) := by omega
  have hlt : ¬ pk.length.toNat < 25 := by omega
  have hend : 25 + (pk.length.toNat - 25) = pk.length.toNat := by omega
  rw [hn]
  simp only [Mem.span_add, Nat.reduceAdd]
  simp [packet2paquet, hlt, pk.length_sub_mod, hend]

theorem packet2paquet_writes (pk : Packet) (pq : Paquet) (h : 25 ≤ pk.length.toNat) :
    Access.writes .pqData (log (packet2paquet pk pq)) =
      Mem.span 0 paquetMaxDatasize ++ Mem.span 0 (pk.length.toNat - 25) := by
  have hlt : ¬ pk.length.toNat < 25 := by omega
  simp [packet2paquet, hlt, pk.length_sub_mod]

theorem packet2paquet_runt_log (pk : Packet) (pq : Paquet) (h : pk.length.toNat < 25) :
    log (packet2paquet pk pq) = (Mem.span 0 paquetMaxDatasize).map (.write .pqData) := by
  simp [packet2paquet, h]

/-- The fields of a frame in memory. -/
structure Frame.Fields (f : Frame) (data : Mem UInt8) : Prop where
  dpan : data.load 3 2 = f.dpan
  dmac : data.load 5 8 = f.dmac
  span : data.load 13 2 = f.span
  smac : data.load 15 8 = f.smac
  payload : data.slice 23 f.payload.length = f.payload

theorem Frame.fields_of_bytes {f : Frame} {data : Mem UInt8}
    (h : data.slice 0 (25 + f.payload.length) = f.bytes) : f.Fields data := by
  have hn : 25 + f.payload.length = 3 + (2 + (8 + (2 + (8 + (f.payload.length + 2))))) := by omega
  rw [hn] at h
  simp only [Mem.slice_add, Nat.zero_add, Nat.reduceAdd, Frame.bytes] at h
  obtain ⟨-, h⟩ := List.append_inj h (by simp [Frame.header])
  obtain ⟨hdpan, h⟩ := List.append_inj h (by simp)
  obtain ⟨hdmac, h⟩ := List.append_inj h (by simp)
  obtain ⟨hspan, h⟩ := List.append_inj h (by simp)
  obtain ⟨hsmac, h⟩ := List.append_inj h (by simp)
  obtain ⟨hpayload, -⟩ := List.append_inj h (by simp)
  exact ⟨Mem.load_eq_of_slice hdpan, Mem.load_eq_of_slice hdmac, Mem.load_eq_of_slice hspan,
    Mem.load_eq_of_slice hsmac, hpayload⟩

/-- `pq` carries the message `f`: its fields, and its payload followed by
zeros to the end of `data`. -/
structure Paquet.Carries (pq : Paquet) (f : Frame) : Prop where
  dpan : pq.dpan = f.dpan
  dmac : pq.dmac = f.dmac
  span : pq.span = f.span
  smac : pq.smac = f.smac
  datalen : pq.datalen.toNat = f.payload.length
  payload : pq.data.slice 0 f.payload.length = f.payload
  zeros : ∀ i, f.payload.length ≤ i → i < paquetMaxDatasize → pq.data i = 0

/-- The decoder reads back the frame whose bytes the buffer holds. -/
theorem packet2paquet_frame {pk : Packet} {f : Frame} (pq : Paquet)
    (hlen : pk.length.toNat = 25 + f.payload.length)
    (h : pk.data.slice 0 (25 + f.payload.length) = f.bytes) :
    val (packet2paquet pk pq) = (1, pk.decoded pq.data) ∧ (pk.decoded pq.data).Carries f := by
  have hf := Frame.fields_of_bytes h
  have hsub : pk.length.toNat - 25 = f.payload.length := by omega
  refine ⟨packet2paquet_val pk pq (by omega), hf.dpan, hf.dmac, hf.span, hf.smac, ?_, ?_, ?_⟩
  · exact (decoded_datalen pk).trans hsub
  · simp only [Packet.decoded, hsub, Mem.slice_copy_self]
    exact (Mem.slice_congr fun i _ => by simp [Mem.drop]).trans hf.payload
  · intro i hi hi'
    simp only [Packet.decoded, hsub]
    rw [Mem.copy_apply_other (by omega)]
    simp [Mem.fill, hi']

/-- The frame of a paquet is decoded to what the paquet held. -/
theorem packet2paquet_sent (pq pq2 : Paquet) (pk : Packet) (h : pq.datalen.toNat ≤ 100) :
    val (packet2paquet (val (paquet2packet pq pk)).2.2 pq2) = (1, (val (paquet2packet pq pk)).2.2.decoded pq2.data) ∧
      ((val (paquet2packet pq pk)).2.2.decoded pq2.data).Carries (pq.frame h) := by
  obtain ⟨hlen, hbytes⟩ := paquet2packet_bytes pq pk h
  have hpay : (pq.frame h).payload.length = pq.datalen.toNat := by simp [Paquet.frame]
  exact packet2paquet_frame pq2 (by rw [hlen, hpay]) (by rw [hpay]; exact hbytes)

/-- A paquet that carries `f` is encoded as `f`. -/
theorem Paquet.Carries.frame_eq {pq : Paquet} {f : Frame} (h : pq.Carries f) (hfit : pq.datalen.toNat ≤ 100) :
    pq.frame hfit = f := by
  cases f
  simp only [Paquet.frame, Frame.mk.injEq]
  exact ⟨h.dpan, h.dmac, h.span, h.smac, h.datalen ▸ h.payload⟩

end OflMetrics
