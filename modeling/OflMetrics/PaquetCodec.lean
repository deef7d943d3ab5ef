/-
The two conversions of the frame codec against each other, against the CRC
and against their buffers.

* `decode_encode`: decoding undoes encoding, and encoding the decoded
  paquet gives the same frame again.
* `decoded_crc_iff`: the CRC does not survive. The encoder keeps the low byte
  alone (`(crc << 8) & 0xFF` is zero), so every trailer stands for several
  CRCs; and the decoder reads the two bytes behind the trailer, so the field
  is right only when those bytes happen to be the payload's CRC.
* `codec_bounds_iff`: the encoder stays in its buffers exactly up to 100
  payload bytes, the decoder exactly up to 123 frame bytes (it reads two
  bytes behind the frame).
-/
import OflMetrics.PaquetFacts

namespace OflMetrics

open Embed Embed.Traced

/-! ## Round trip -/

/-- **Decoding undoes encoding**, whatever the packet buffer (`pk`, `pk'`) and
the destination (`pq2`) held before, and encoding what was decoded gives the
same frame. -/
theorem decode_encode (pq pq2 : Paquet) (pk pk' : Packet) (h : pq.datalen.toNat ≤ 100) :
    let sent := (val (paquet2packet pq pk)).2.2
    let received := val (packet2paquet sent pq2)
    let again := (val (paquet2packet received.2 pk')).2.2
    received.1 = 1 ∧
    received.2.dpan = pq.dpan ∧ received.2.dmac = pq.dmac ∧ received.2.span = pq.span ∧
    received.2.smac = pq.smac ∧ received.2.datalen = pq.datalen ∧
    (∀ i, i < paquetMaxDatasize → received.2.data i = if i < pq.datalen.toNat then pq.data i else 0) ∧
    again.length = sent.length ∧
    again.data.slice 0 again.length.toNat = sent.data.slice 0 sent.length.toNat := by
  intro sent received again
  obtain ⟨hlen, hbytes⟩ := paquet2packet_bytes pq pk h
  have hpay : (pq.frame h).payload.length = pq.datalen.toNat := by simp [Paquet.frame]
  obtain ⟨hval, hcar⟩ := packet2paquet_sent pq pq2 pk h
  have hreceived : received = (1, sent.decoded pq2.data) := hval
  have hdatalen : (sent.decoded pq2.data).datalen.toNat = pq.datalen.toNat := hcar.datalen.trans hpay
  have hfit : (sent.decoded pq2.data).datalen.toNat ≤ 100 := by omega
  -- The second encoding is of the same frame.
  obtain ⟨hlen', hbytes'⟩ := paquet2packet_bytes (sent.decoded pq2.data) pk' hfit
  rw [hcar.frame_eq hfit, hdatalen] at hbytes'
  rw [hdatalen] at hlen'
  have hsentlen : sent.length.toNat = 25 + pq.datalen.toNat := hlen
  have hagainlen : again.length.toNat = 25 + pq.datalen.toNat := by
    simp only [again, hreceived]; exact hlen'
  have hagain : again.data.slice 0 (25 + pq.datalen.toNat) = (pq.frame h).bytes := by
    simp only [again, hreceived]; exact hbytes'
  rw [hreceived]
  refine ⟨rfl, hcar.dpan, hcar.dmac, hcar.span, hcar.smac, UInt8.toNat_inj.mp hdatalen, ?_, ?_, ?_⟩
  · intro i hi
    split
    · next hlt =>
      have hpayload := hcar.payload
      rw [hpay] at hpayload
      simpa using Mem.eq_of_slice_eq hpayload hlt
    · next hge => exact hcar.zeros i (by omega) hi
  · exact UInt8.toNat_inj.mp (hagainlen.trans hsentlen.symm)
  · rw [hagainlen, hsentlen, hagain]
    exact hbytes.symm

/-- A message whose addresses are all different, with a payload of a hundred bytes. -/
def samplePaquet : Paquet :=
  { dpan := #v[0xFF, 0x12], dmac := #v[0x01, 0x02, 0x03, 0x04, 0x05, 0x06, 0x07, 0x08], span := #v[0x34, 0x56],
    smac := #v[0x99, 0x88, 0x77, 0x66, 0x55, 0x44, 0x33, 0x22], datalen := 100,
    data := fun i => UInt8.ofNat (7 * i + 3), crc := #v[0xDE, 0xAD] }

/-- A destination with an older message left in it. -/
def stalePaquet : Paquet :=
  { dpan := #v[0xA0, 0xA1], dmac := #v[0xA2, 0xA3, 0xA4, 0xA5, 0xA6, 0xA7, 0xA8, 0xA9], span := #v[0xAA, 0xAB],
    smac := #v[0xAC, 0xAD, 0xAE, 0xAF, 0xB0, 0xB1, 0xB2, 0xB3], datalen := 17,
    data := fun i => UInt8.ofNat (5 * i + 200), crc := #v[0xBE, 0xEF] }

/-- A packet buffer with an older frame left in it. -/
def stalePacket (first : Nat) : Packet := { length := 77, offset := 5, data := fun i => UInt8.ofNat (11 * i + first) }

theorem decode_encode_sample :
    let sent := (val (paquet2packet samplePaquet (stalePacket 1))).2.2
    let received := val (packet2paquet sent stalePaquet)
    let again := (val (paquet2packet received.2 (stalePacket 2))).2.2
    received.1 = 1 ∧
    received.2.dpan = samplePaquet.dpan ∧ received.2.dmac = samplePaquet.dmac ∧ received.2.span = samplePaquet.span ∧
    received.2.smac = samplePaquet.smac ∧ received.2.datalen = 100 ∧
    (∀ i, i < paquetMaxDatasize → received.2.data i = if i < 100 then UInt8.ofNat (7 * i + 3) else 0) ∧
    again.length = sent.length ∧
    again.data.slice 0 again.length.toNat = sent.data.slice 0 sent.length.toNat :=
  decode_encode samplePaquet stalePaquet (stalePacket 1) (stalePacket 2) (by decide)

/-! ## The CRC in the frame -/

/-- The 16-bit value of a decoded paquet's CRC bytes, low byte first. -/
def Paquet.crcValue (pq : Paquet) : Nat := (byte0 pq.crc).toNat + 256 * (byte1 pq.crc).toNat

/-- The two trailer bytes of a frame, low byte first. -/
def Packet.trailerValue (pk : Packet) : Nat :=
  (pk.data (pk.length.toNat - 2)).toNat + 256 * (pk.data (pk.length.toNat - 1)).toNat

/-- What the two bytes behind an `n`-byte payload's frame hold once the buffer
has been cleared: zero inside the buffer, their old content outside. -/
def Packet.behindFrame (pk : Packet) (n : Nat) : Nat :=
  (if n < 100 then 0 else (pk.data (25 + n)).toNat) + 256 * (if n < 99 then 0 else (pk.data (26 + n)).toNat)

theorem decoded_crcValue (pq pq2 : Paquet) (pk : Packet) (h : pq.datalen.toNat ≤ 100) :
    (val (packet2paquet (val (paquet2packet pq pk)).2.2 pq2)).2.crcValue = pk.behindFrame pq.datalen.toNat := by
  have hlen := encoded_length h
  rw [paquet2packet_val, packet2paquet_val _ _ (by simp only [hlen]; omega)]
  have hsub : (UInt8.ofNat (pq.datalen.toNat + 25)).toNat - 25 = pq.datalen.toNat := by omega
  have hnext : 25 + pq.datalen.toNat + 1 = 26 + pq.datalen.toNat := by omega
  have hlow : pq.encoded pk.data (25 + pq.datalen.toNat) =
      if pq.datalen.toNat < 100 then 0 else pk.data (25 + pq.datalen.toNat) := by
    rw [encoded_behind pq pk.data (by omega)]
    simp only [maxPayloadSize, show 25 + pq.datalen.toNat < 125 ↔ pq.datalen.toNat < 100 by omega]
  have hhigh : pq.encoded pk.data (26 + pq.datalen.toNat) =
      if pq.datalen.toNat < 99 then 0 else pk.data (26 + pq.datalen.toNat) := by
    rw [encoded_behind pq pk.data (by omega)]
    simp only [maxPayloadSize, show 26 + pq.datalen.toNat < 125 ↔ pq.datalen.toNat < 99 by omega]
  simp only [Packet.decoded, Paquet.crcValue, Mem.load, Vector.getElem_ofFn, hsub, Nat.add_zero, hnext, hlow, hhigh,
    Packet.behindFrame]
  split <;> split <;> rfl

/-- The payload the decoder reads has the CRC of the payload sent. -/
theorem decoded_crc16 (pq pq2 : Paquet) (pk : Packet) (h : pq.datalen.toNat ≤ 100) :
    let received := (val (packet2paquet (val (paquet2packet pq pk)).2.2 pq2)).2
    val (crc16 received.data received.datalen.toUInt16) = val (crc16 pq.data pq.datalen.toUInt16) := by
  intro received
  have hpay : (pq.frame h).payload.length = pq.datalen.toNat := by simp [Paquet.frame]
  obtain ⟨hval, hcar⟩ := packet2paquet_sent pq pq2 pk h
  have hreceived : received = (val (paquet2packet pq pk)).2.2.decoded pq2.data := by simp only [received, hval]
  have hdatalen := hcar.datalen
  have hpayload := hcar.payload
  rw [hpay] at hdatalen hpayload
  rw [crc16_val, crc16_val, hreceived, UInt8.toNat_toUInt16, UInt8.toNat_toUInt16, hdatalen, hpayload]
  rfl

theorem sent_trailerValue (pq : Paquet) (pk : Packet) (h : pq.datalen.toNat ≤ 100) :
    (val (paquet2packet pq pk)).2.2.trailerValue = (val (crc16 pq.data pq.datalen.toUInt16)).toNat % 256 := by
  obtain ⟨hlen, -⟩ := paquet2packet_bytes pq pk h
  have hlow : 25 + pq.datalen.toNat - 2 = 23 + pq.datalen.toNat := by omega
  have hhigh : 25 + pq.datalen.toNat - 1 = 24 + pq.datalen.toNat := by omega
  rw [Packet.trailerValue, hlen, hlow, hhigh, crc16_val, UInt8.toNat_toUInt16]
  simp only [paquet2packet_val, Paquet.encoded, Mem.store, Frame.trailer]
  simp [show 24 + pq.datalen.toNat - (23 + pq.datalen.toNat) = 1 by omega,
    show 23 + pq.datalen.toNat ≤ 24 + pq.datalen.toNat by omega, Nat.and_two_pow_sub_one_eq_mod _ 8]

/-- A paquet with a payload, all else zero. -/
def Paquet.ofPayload (payload : List UInt8) : Paquet :=
  { Paquet.zero with datalen := UInt8.ofNat payload.length, data := fun i => payload.getD i 0 }

theorem ofPayload_datalen {payload : List UInt8} (h : payload.length ≤ 100) :
    (Paquet.ofPayload payload).datalen.toNat = payload.length := by
  rw [Paquet.ofPayload, UInt8.toNat_ofNat']
  omega

theorem ofPayload_crc16 {payload : List UInt8} (h : payload.length ≤ 100) :
    val (crc16 (Paquet.ofPayload payload).data (Paquet.ofPayload payload).datalen.toUInt16) = crcBytes payload := by
  rw [crc16_val, UInt8.toNat_toUInt16, ofPayload_datalen h, Paquet.ofPayload, Mem.slice_getD Nat.le.refl, List.take_length]

/-- The byte whose CRC has the low byte `low`: the eight turns of the inner
loop on the low byte, undone. -/
def lowCrcByte (low : UInt8) : UInt8 :=
  let d := ~~~low ^^^ (~~~low >>> 5)
  ~~~(d ^^^ (d <<< 4))

/-- A payload of one byte and one of two, with one low byte and different CRCs. -/
theorem crcBytes_lowCrcByte : ∀ low : Fin 256,
    (crcBytes [lowCrcByte (UInt8.ofNat low)]).toNat % 256 = low ∧
      (crcBytes [0, lowCrcByte (UInt8.ofNat low) ^^^ 0x78]).toNat % 256 = low ∧
      crcBytes [lowCrcByte (UInt8.ofNat low)] ≠ crcBytes [0, lowCrcByte (UInt8.ofNat low) ^^^ 0x78] := by
  decide +kernel

/-- Every CRC shares its low byte with the CRC of another payload. -/
theorem exists_low_eq (crc : UInt16) : ∃ payload : List UInt8, payload.length ≤ 100 ∧
    (crcBytes payload).toNat % 256 = crc.toNat % 256 ∧ crcBytes payload ≠ crc := by
  obtain ⟨hone, htwo, hne⟩ := crcBytes_lowCrcByte ⟨crc.toNat % 256, Nat.mod_lt _ (by decide)⟩
  by_cases heq : crcBytes [lowCrcByte (UInt8.ofNat (crc.toNat % 256))] = crc
  · exact ⟨_, by simp, htwo, fun h => hne (heq.trans h.symm)⟩
  · exact ⟨_, by simp, hone, heq⟩

/-- **What becomes of the CRC.** The decoded field is the payload's CRC exactly
when the two bytes behind the frame happen to hold it (with up to 98 payload
bytes: when the CRC is zero). The trailer is the CRC without its high byte,
and there is always a payload with another CRC that gets the same trailer. -/
theorem decoded_crc_iff (pq pq2 : Paquet) (pk : Packet) (h : pq.datalen.toNat ≤ 100) :
    let sent := (val (paquet2packet pq pk)).2.2
    let received := (val (packet2paquet sent pq2)).2
    let crc := (val (crc16 pq.data pq.datalen.toUInt16)).toNat
    (received.crcValue = (val (crc16 received.data received.datalen.toUInt16)).toNat ↔
      crc = pk.behindFrame pq.datalen.toNat) ∧
    sent.trailerValue = crc % 256 ∧
    ∃ pq' : Paquet, pq'.datalen.toNat ≤ 100 ∧ (val (crc16 pq'.data pq'.datalen.toUInt16)).toNat ≠ crc ∧
      ∀ pk', (val (paquet2packet pq' pk')).2.2.trailerValue = sent.trailerValue := by
  intro sent received crc
  have hvalue : received.crcValue = pk.behindFrame pq.datalen.toNat := decoded_crcValue pq pq2 pk h
  have hcrc : val (crc16 received.data received.datalen.toUInt16) = val (crc16 pq.data pq.datalen.toUInt16) :=
    decoded_crc16 pq pq2 pk h
  have htrailer : sent.trailerValue = crc % 256 := sent_trailerValue pq pk h
  refine ⟨?_, htrailer, ?_⟩
  · rw [hvalue, hcrc]
    exact eq_comm
  · obtain ⟨payload, hlen, hlow, hne⟩ := exists_low_eq (val (crc16 pq.data pq.datalen.toUInt16))
    have hfit : (Paquet.ofPayload payload).datalen.toNat ≤ 100 := by rwa [ofPayload_datalen hlen]
    refine ⟨.ofPayload payload, hfit, ?_, fun pk' => ?_⟩
    · rw [ofPayload_crc16 hlen]
      exact fun heq => hne (UInt16.toNat_inj.mp heq)
    · rw [sent_trailerValue _ pk' hfit, ofPayload_crc16 hlen, hlow, htrailer]

-- In two halves, or the kernel folds too deep.
theorem samplePaquet_crc : val (crc16 samplePaquet.data samplePaquet.datalen.toUInt16) = 0x2E9F := by
  have hfirst : (samplePaquet.data.slice 0 50).foldl crc16Byte 0xffff = 6293 := by decide +kernel
  have hsecond : (samplePaquet.data.slice (0 + 50) 50).foldl crc16Byte 6293 = 24785 := by decide +kernel
  have hlen : samplePaquet.datalen.toUInt16.toNat = 50 + 50 := rfl
  rw [crc16_val, hlen, crcBytes, Mem.slice_add, List.foldl_append, hfirst, hsecond]
  rfl

/-- A hundred bytes, and a buffer that holds their CRC, 0x2E9F, behind the frame. -/
theorem decoded_crc_lucky :
    let pk := { stalePacket 1 with data := fun i => if i = 125 then 0x9F else if i = 126 then 0x2E else UInt8.ofNat i }
    let sent := (val (paquet2packet samplePaquet pk)).2.2
    let received := (val (packet2paquet sent stalePaquet)).2
    received.crcValue = (val (crc16 received.data received.datalen.toUInt16)).toNat ∧
    sent.trailerValue = 0x9F ∧
    ∃ pq' : Paquet, pq'.datalen.toNat ≤ 100 ∧ (val (crc16 pq'.data pq'.datalen.toUInt16)).toNat ≠ 0x2E9F ∧
      ∀ pk', (val (paquet2packet pq' pk')).2.2.trailerValue = sent.trailerValue := by
  intro pk
  have hcrc : (val (crc16 samplePaquet.data samplePaquet.datalen.toUInt16)).toNat = 0x2E9F := by rw [samplePaquet_crc]; rfl
  have hbehind : pk.behindFrame samplePaquet.datalen.toNat = 0x2E9F := by decide
  have hiff := decoded_crc_iff samplePaquet stalePaquet pk (by decide)
  simp only [hcrc, hbehind] at hiff
  exact ⟨hiff.1.mpr trivial, hiff.2⟩

/-- One zero byte: its CRC is 0x78F0, the decoded field zero. -/
theorem decoded_crc_lost :
    let pq := { Paquet.zero with datalen := 1 }
    let received := (val (packet2paquet (val (paquet2packet pq Packet.zero)).2.2 Paquet.zero)).2
    pq.datalen.toNat ≤ 100 ∧
      received.crcValue ≠ (val (crc16 received.data received.datalen.toUInt16)).toNat := by
  intro pq received
  have hvalue : received.crcValue = 0 := decoded_crcValue pq Paquet.zero Packet.zero (by decide)
  have hcrc : val (crc16 received.data received.datalen.toUInt16) = 0x78F0 :=
    (decoded_crc16 pq Paquet.zero Packet.zero (by decide)).trans (by decide)
  rw [hvalue, hcrc]
  exact ⟨by decide, by decide⟩

/-! ## Buffer bounds -/

/-- `paquet2packet` reports failure, or stays inside `pq->data` and `pk->data`
and sets `pk->length` to the number of frame bytes it writes (the writes
after the clearing of the buffer). -/
def EncodeInBounds (pq : Paquet) (pk : Packet) : Prop :=
  let run := paquet2packet pq pk
  (val run).1 = 0 ∨
    (∀ i ∈ Access.reads .pqData (log run), i < paquetMaxDatasize) ∧
    (∀ i ∈ Access.writes .pkData (log run), i < maxPayloadSize) ∧
    (val run).2.2.length.toNat = ((Access.writes .pkData (log run)).drop maxPayloadSize).length

/-- `packet2paquet` stays inside `pk->data` and `pq->data`. -/
def DecodeInBounds (pk : Packet) (pq : Paquet) : Prop :=
  (∀ i ∈ Access.reads .pkData (log (packet2paquet pk pq)), i < maxPayloadSize) ∧
    ∀ i ∈ Access.writes .pqData (log (packet2paquet pk pq)), i < paquetMaxDatasize

theorem encodeInBounds_iff (pq : Paquet) (pk : Packet) : EncodeInBounds pq pk ↔ pq.datalen.toNat ≤ 100 := by
  simp only [EncodeInBounds, paquet2packet_val, paquet2packet_reads, paquet2packet_writes, List.mem_append,
    Mem.mem_span, maxPayloadSize, paquetMaxDatasize]
  constructor
  · rintro (h | ⟨-, hw, -⟩)
    · exact absurd h (by decide)
    · -- The last trailer byte goes to `24 + datalen`.
      have := hw (24 + pq.datalen.toNat) (.inr (by omega))
      omega
  · intro h
    refine .inr ⟨by omega, by omega, ?_⟩
    rw [List.drop_left' (by simp), UInt8.toNat_ofNat', Mem.length_span]
    omega

theorem decodeInBounds_iff (pk : Packet) (pq : Paquet) (h : pk.length.toNat ≤ maxPayloadSize) :
    DecodeInBounds pk pq ↔ pk.length.toNat ≤ 123 := by
  rcases Nat.lt_or_ge pk.length.toNat 25 with hlt | hge
  · simp only [DecodeInBounds, packet2paquet_runt_log pk pq hlt, Access.reads_map_write, Access.writes_map_write,
      if_pos, Mem.mem_span]
    refine ⟨fun _ => by omega, fun _ => ⟨by simp, by omega⟩⟩
  · simp only [DecodeInBounds, packet2paquet_reads pk pq hge, packet2paquet_writes pk pq hge, List.mem_append,
      Mem.mem_span, maxPayloadSize, paquetMaxDatasize] at h ⊢
    constructor
    · rintro ⟨hr, -⟩
      -- The CRC is read from the two bytes behind the frame.
      have := hr (pk.length.toNat + 1) (.inr (by omega))
      omega
    · intro hle
      exact ⟨by omega, by omega⟩

/-- **The codec and its buffers.** The encoder is safe exactly for payloads of
at most 100 bytes, and never reports failure; the decoder, on a packet of at
most 125 bytes, exactly for at most 123. -/
theorem codec_bounds_iff (pq pq' : Paquet) (pk received : Packet) (h : received.length.toNat ≤ maxPayloadSize) :
    (EncodeInBounds pq pk ↔ pq.datalen.toNat ≤ 100) ∧ (DecodeInBounds received pq' ↔ received.length.toNat ≤ 123) :=
  ⟨encodeInBounds_iff pq pk, decodeInBounds_iff received pq' h⟩

/-- The longest payload, and the longest frame that is decoded in bounds. -/
theorem codec_bounds_longest :
    EncodeInBounds samplePaquet (stalePacket 1) ∧ DecodeInBounds { stalePacket 2 with length := 123 } stalePaquet := by
  obtain ⟨hencode, hdecode⟩ := codec_bounds_iff samplePaquet stalePaquet (stalePacket 1)
    { stalePacket 2 with length := 123 } (by decide)
  exact ⟨hencode.mpr (by decide), hdecode.mpr (by decide)⟩

/-- A payload of 101 bytes, and a received frame of 125. -/
theorem codec_out_of_bounds :
    ¬ EncodeInBounds { Paquet.zero with datalen := 101 } Packet.zero ∧
      ¬ DecodeInBounds { Packet.zero with length := 125 } Paquet.zero := by
  rw [encodeInBounds_iff, decodeInBounds_iff _ _ (by decide)]
  exact ⟨by decide, by decide⟩

end OflMetrics
