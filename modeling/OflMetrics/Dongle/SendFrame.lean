/-
The frame of `:send`, run twice: what of it depends on the memory it is built
in.

The local `pq` keeps four bytes of either address and both networks from the
stack; `paquet2packet` sends all of it. So two runs send one and the same
frame, from the configured address to all, exactly when the stack held the
right bytes already (`determined_iff`).
-/
import OflMetrics.Dongle.FirmwareFacts

namespace OflMetrics

open Embed Embed.Traced Embed.CString

/-- The broadcast address. -/
def broadcastMac : Vector UInt8 8 := .replicate 8 0xFF

/-- The decoder reads the payload and both addresses from a frame. -/
structure Delivers (myconfig : ConfigT) (payload : List UInt8) (f : Packet) : Prop where
  ok : ∀ pq, (val (packet2paquet f pq)).1 = 1
  payload : ∀ pq, (val (packet2paquet f pq)).2.payload = payload
  smac : ∀ pq, (val (packet2paquet f pq)).2.smac = myconfig.smac
  dmac : ∀ pq, (val (packet2paquet f pq)).2.dmac = broadcastMac

/-- Two runs send one frame each, of the same bytes, that delivers the payload. -/
def Determined (myconfig : ConfigT) (payload : List UInt8) (l l' : List DongleEvent) : Prop :=
  ∃ f f', sentFrames l = [f] ∧ sentFrames l' = [f'] ∧ f.length = f'.length ∧
    f.data.slice 0 f.length.toNat = f'.data.slice 0 f'.length.toNat ∧
    Delivers myconfig payload f ∧ Delivers myconfig payload f'

/-- The stack held the bytes of the addresses that are not set. -/
structure HoldsAddresses (myconfig : ConfigT) (stack : Paquet) : Prop where
  smac : ∀ i : Fin 8, 4 ≤ i.val → stack.smac.get i = myconfig.smac.get i
  dmac : ∀ i : Fin 8, 4 ≤ i.val → stack.dmac.get i = 0xFF

/-- Two stacks hold the same networks and the right rest of both addresses. -/
structure StacksAgree (myconfig : ConfigT) (stack stack' : Paquet) : Prop where
  span : stack.span = stack'.span
  dpan : stack.dpan = stack'.dpan
  left : HoldsAddresses myconfig stack
  right : HoldsAddresses myconfig stack'

/-! ## The paquet -/

section

variable (myconfig : ConfigT) (stack : Paquet) {cmd2 : List UInt8}

theorem sendPaquet_datalen (hlen : cmd2.length ≤ 100) : (sendPaquet myconfig stack cmd2).datalen.toNat = cmd2.length :=
  UInt8.toNat_ofNat_of_lt' (by simp only [UInt8.size]; omega)

theorem sendPaquet_fits (hlen : cmd2.length ≤ 100) : (sendPaquet myconfig stack cmd2).datalen.toNat ≤ 100 := by
  rw [sendPaquet_datalen _ _ hlen]
  exact hlen

/-- The payload is the rest of the command. -/
theorem sendPaquet_payload (hlen : cmd2.length ≤ 100) :
    ((sendPaquet myconfig stack cmd2).frame (sendPaquet_fits myconfig stack hlen)).payload = cmd2 := by
  show (sendPaquet myconfig stack cmd2).payload = cmd2
  rw [Paquet.payload, sendPaquet_datalen _ _ hlen, sendPaquet, Mem.slice_copy_self, Mem.slice_getD (Nat.le_refl _) 0,
    List.take_length]

theorem ofFn_eq_iff {v w : Vector UInt8 8} {g : Fin 8 → UInt8} (hset : ∀ i : Fin 8, i.val < 4 → g i = w.get i) :
    (Vector.ofFn fun i : Fin 8 => if i < 4 then g i else v.get i) = w ↔ ∀ i : Fin 8, 4 ≤ i.val → v.get i = w.get i := by
  rw [Vector.ext_iff]
  constructor
  · intro h i hi
    have hget := h i.val i.isLt
    have hhigh : ¬ i < 4 := Nat.not_lt.mpr hi
    rw [Vector.getElem_ofFn, if_neg hhigh] at hget
    exact hget
  · intro h i hi
    rw [Vector.getElem_ofFn]
    by_cases hlow : i < 4
    · exact (if_pos hlow).trans (hset ⟨i, hi⟩ hlow)
    · exact (if_neg hlow).trans (h ⟨i, hi⟩ (Nat.not_lt.mp hlow))

theorem sendPaquet_addresses (cmd2 : List UInt8) :
    ((sendPaquet myconfig stack cmd2).smac = myconfig.smac ∧ (sendPaquet myconfig stack cmd2).dmac = broadcastMac) ↔
      HoldsAddresses myconfig stack := by
  have hsmac := ofFn_eq_iff (v := stack.smac) (w := myconfig.smac) (g := fun i => myconfig.smac[i]) fun _ _ => rfl
  have hdmac := ofFn_eq_iff (v := stack.dmac) (w := broadcastMac) (g := fun _ => 0xFF) (by decide)
  have hall : ∀ i : Fin 8, broadcastMac.get i = 0xFF := by decide
  simp only [hall] at hdmac
  constructor
  · intro h
    exact ⟨hsmac.mp h.1, hdmac.mp h.2⟩
  · intro h
    exact ⟨hsmac.mpr h.smac, hdmac.mpr h.dmac⟩

end

/-! ## The frame -/

/-- The one frame of the branch, in a buffer that held `pk`. -/
def sentPacket (myconfig : ConfigT) (stack : Paquet) (cmd2 : List UInt8) (pk : Packet) : Packet :=
  (val (paquet2packet (sendPaquet myconfig stack cmd2) pk)).2.2

section

variable (myconfig : ConfigT) (stack : Paquet) {cmd2 : List UInt8}

theorem sentPacket_bytes (hlen : cmd2.length ≤ 100) (pk : Packet) :
    (sentPacket myconfig stack cmd2 pk).length.toNat = 25 + cmd2.length ∧
      (sentPacket myconfig stack cmd2 pk).data.slice 0 (25 + cmd2.length) =
        ((sendPaquet myconfig stack cmd2).frame (sendPaquet_fits myconfig stack hlen)).bytes := by
  have hbytes := paquet2packet_bytes (sendPaquet myconfig stack cmd2) pk (sendPaquet_fits myconfig stack hlen)
  simp only [sendPaquet_datalen _ _ hlen] at hbytes
  exact hbytes

theorem sentPacket_decoded (hlen : cmd2.length ≤ 100) (pk : Packet) (pq : Paquet) :
    val (packet2paquet (sentPacket myconfig stack cmd2 pk) pq) =
        (1, (sentPacket myconfig stack cmd2 pk).decoded pq.data) ∧
      ((sentPacket myconfig stack cmd2 pk).decoded pq.data).Carries
        ((sendPaquet myconfig stack cmd2).frame (sendPaquet_fits myconfig stack hlen)) :=
  packet2paquet_sent (sendPaquet myconfig stack cmd2) pq pk (sendPaquet_fits myconfig stack hlen)

/-- The payload does not depend on the stack. -/
theorem sentPacket_payload (hlen : cmd2.length ≤ 100) (pk : Packet) (pq : Paquet) :
    (val (packet2paquet (sentPacket myconfig stack cmd2 pk) pq)).1 = 1 ∧
      (val (packet2paquet (sentPacket myconfig stack cmd2 pk) pq)).2.payload = cmd2 := by
  obtain ⟨hdecode, hcarries⟩ := sentPacket_decoded myconfig stack hlen pk pq
  refine ⟨by rw [hdecode], ?_⟩
  rw [hdecode, Paquet.payload]
  simp only [hcarries.datalen]
  exact hcarries.payload.trans (sendPaquet_payload myconfig stack hlen)

/-- What is read from the frame is what was in the paquet. -/
theorem delivers_iff (hlen : cmd2.length ≤ 100) (pk : Packet) :
    Delivers myconfig cmd2 (sentPacket myconfig stack cmd2 pk) ↔ HoldsAddresses myconfig stack := by
  have hpayload := sentPacket_payload myconfig stack hlen pk
  have hdecode := sentPacket_decoded myconfig stack hlen pk
  rw [← sendPaquet_addresses _ _ cmd2]
  constructor
  · intro h
    have hsmac := h.smac .zero
    have hdmac := h.dmac .zero
    rw [(hdecode .zero).1] at hsmac hdmac
    exact ⟨(hdecode .zero).2.smac.symm.trans hsmac, (hdecode .zero).2.dmac.symm.trans hdmac⟩
  · rintro ⟨hsmac, hdmac⟩
    refine ⟨fun pq => ?_, fun pq => ?_, fun pq => ?_, fun pq => ?_⟩
    · exact (hpayload pq).1
    · exact (hpayload pq).2
    · rw [(hdecode pq).1]
      exact (hdecode pq).2.smac.trans hsmac
    · rw [(hdecode pq).1]
      exact (hdecode pq).2.dmac.trans hdmac

end

/-- Frames of the same bytes have the same networks. -/
theorem Frame.networks_eq {f f' : Frame} (hlen : f.payload.length = f'.payload.length) (h : f.bytes = f'.bytes) :
    f.span = f'.span ∧ f.dpan = f'.dpan := by
  let data : Mem UInt8 := fun i => f.bytes.getD i 0
  have hdata : data.slice 0 (25 + f.payload.length) = f.bytes := by
    rw [← Frame.length_bytes, Mem.slice_getD (Nat.le_refl _) 0, List.take_length]
  have hfields := Frame.fields_of_bytes hdata
  have hfields' : f'.Fields data := Frame.fields_of_bytes (by rw [← hlen, hdata, h])
  exact ⟨hfields.span.symm.trans hfields'.span, hfields.dpan.symm.trans hfields'.dpan⟩

theorem sentFrames_send {s : Dongle} {cmd cmd2 : List UInt8} {env : SendEnv} {p : Nat} {pk : Packet}
    (hsend : parseCmd s.monitorMode cmd = .send cmd2) (hfree : env.freePacket = some (p, pk)) :
    sentFrames (log (processCmd s cmd env)) = [sentPacket s.myconfig env.stack cmd2 pk] := by
  rw [processCmd, carryOut_sentFrames, hsend]
  simp only [sendFrame, hfree]
  rfl

/-- **When a frame of `:send` is determined** by the command and the
configuration: the memory it is built in agrees. -/
theorem determined_iff (s : Dongle) (cmd cmd2 : List UInt8) (env env' : SendEnv) (p p' : Nat) (pk pk' : Packet)
    (hsend : parseCmd s.monitorMode cmd = .send cmd2) (hlen : 1 ≤ cmd2.length ∧ cmd2.length ≤ 100)
    (hfree : env.freePacket = some (p, pk)) (hfree' : env'.freePacket = some (p', pk')) :
    Determined s.myconfig cmd2 (log (processCmd s cmd env)) (log (processCmd s cmd env')) ↔
      StacksAgree s.myconfig env.stack env'.stack := by
  have hsent := sentFrames_send hsend hfree
  have hsent' := sentFrames_send hsend hfree'
  obtain ⟨hlength, hbytes⟩ := sentPacket_bytes s.myconfig env.stack hlen.2 pk
  obtain ⟨hlength', hbytes'⟩ := sentPacket_bytes s.myconfig env'.stack hlen.2 pk'
  constructor
  · rintro ⟨f, f', hf, hf', -, hsame, hdelivers, hdelivers'⟩
    rw [hsent, List.singleton_inj] at hf
    rw [hsent', List.singleton_inj] at hf'
    subst hf hf'
    rw [hlength, hlength', hbytes, hbytes'] at hsame
    have hpayloads := (sendPaquet_payload s.myconfig env.stack hlen.2).trans
      (sendPaquet_payload s.myconfig env'.stack hlen.2).symm
    obtain ⟨hspan, hdpan⟩ := Frame.networks_eq (congrArg List.length hpayloads) hsame
    exact ⟨hspan, hdpan, (delivers_iff _ _ hlen.2 pk).mp hdelivers, (delivers_iff _ _ hlen.2 pk').mp hdelivers'⟩
  · intro h
    have hdelivers := (delivers_iff _ _ hlen.2 pk).mpr h.left
    have hdelivers' := (delivers_iff _ _ hlen.2 pk').mpr h.right
    refine ⟨_, _, hsent, hsent', UInt8.toNat_inj.mp (hlength.trans hlength'.symm), ?_, hdelivers, hdelivers'⟩
    obtain ⟨hsmac, hdmac⟩ := (sendPaquet_addresses _ _ cmd2).mpr h.left
    obtain ⟨hsmac', hdmac'⟩ := (sendPaquet_addresses _ _ cmd2).mpr h.right
    have hpayload := sendPaquet_payload s.myconfig env.stack hlen.2
    have hpayload' := sendPaquet_payload s.myconfig env'.stack hlen.2
    rw [hlength, hlength', hbytes, hbytes', Frame.bytes, Frame.bytes, hpayload, hpayload']
    have hspan : (sendPaquet s.myconfig env.stack cmd2).span = (sendPaquet s.myconfig env'.stack cmd2).span := h.span
    have hdpan : (sendPaquet s.myconfig env.stack cmd2).dpan = (sendPaquet s.myconfig env'.stack cmd2).dpan := h.dpan
    simp only [Paquet.frame, hspan, hdpan, hsmac, hdmac, hsmac', hdmac']

/-- A free buffer, over a stack. -/
def oneBuffer (stack : Paquet) : SendEnv := { freePacket := some (0, .zero), stack }

/-- A stack that happens to hold the addresses, over other things. -/
def luckyStack (payload : Mem UInt8) (datalen : UInt8) : Paquet :=
  { Paquet.zero with smac := sampleDongle.myconfig.smac, dmac := broadcastMac, data := payload, datalen }

/-- After such a run, one over a zeroed stack: its frame is not addressed to all. -/
theorem send_undetermined :
    ¬ Determined sampleDongle.myconfig (ascii "A")
      (log (processCmd sampleDongle (ascii ":send A") (oneBuffer (luckyStack (fun _ => 0x55) 9))))
      (log (processCmd sampleDongle (ascii ":send A") (oneBuffer .zero))) := by
  rintro ⟨f, f', -, hf', -, -, -, hdelivers⟩
  have hsend : parseCmd sampleDongle.monitorMode (ascii ":send A") = .send (ascii "A") := by decide +kernel
  rw [sentFrames_send hsend rfl, List.singleton_inj] at hf'
  subst hf'
  have haddresses := (delivers_iff _ _ (by decide) .zero).mp hdelivers
  exact absurd (haddresses.dmac 4 (by decide)) (by decide)

/-- Two stacks that differ in what the command overwrites. -/
theorem send_determined :
    Determined sampleDongle.myconfig (ascii "A")
      (log (processCmd sampleDongle (ascii ":send A") (oneBuffer (luckyStack (fun _ => 0x55) 9))))
      (log (processCmd sampleDongle (ascii ":send A") (oneBuffer (luckyStack (fun i => UInt8.ofNat i) 70)))) :=
  (determined_iff sampleDongle (ascii ":send A") (ascii "A") (oneBuffer (luckyStack (fun _ => 0x55) 9))
    (oneBuffer (luckyStack (fun i => UInt8.ofNat i) 70)) 0 0 .zero .zero (by decide +kernel) (by decide) rfl rfl).mpr
    ⟨rfl, rfl, ⟨fun _ _ => rfl, by decide⟩, ⟨fun _ _ => rfl, by decide⟩⟩

end OflMetrics
