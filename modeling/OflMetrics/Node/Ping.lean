/-
`process_rx_packet` of `oflnode.c`, which answers a packet.

The test for `PING` is the wrong way round, the `PONG` it writes is not copied
to the answer, whose length is that of a zeroed array, and no buffer is taken
for a buffer: whatever arrives, an empty frame goes out. So the handler does
what it is for only with an empty packet (`answersPing_iff`). It gives the
received buffer back once in every case (`freed_once`).
-/
import OflMetrics.Embed.CString
import OflMetrics.Node.Report
import OflMetrics.PaquetFacts

namespace OflMetrics

open Embed Embed.Traced Embed.CString

/-- What the handler does. -/
inductive RxHandlerEvent where
  /-- The payload printed, from memory that is not set yet. -/
  | printData (data : Mem UInt8)
  /-- `paquet2packet` into `NULL`. -/
  | encodeToNull
  /-- `tx_packet`, of a buffer with what is in it, or of `NULL`. -/
  | txPacket (b : Option (Nat × Packet))
  /-- `free_packet`, of the buffer at a handle. -/
  | freePacket (p : Nat)

/-- What the handler's locals held, and what `get_free_packet` returns. -/
structure RxHandlerEnv where
  pqrx : Paquet
  pqtx : Paquet
  data : Mem UInt8
  freePacket : Option (Nat × Packet)

/-- The answer in `pqtx`. -/
def pongPaquet (myconfig : ConfigT) (pqrx : Paquet) (env : RxHandlerEnv) : Paquet :=
  let data := env.data.fill 0 0 100
  let n := strncmp pqrx.data (literal "PING") pqrx.datalen.toNat
  let pqtx := if n ≠ 0 then { env.pqtx with data := env.pqtx.data.copy 0 (literal "PONG") 5 } else env.pqtx
  { pqtx with
    smac := myconfig.smac
    dmac := pqrx.smac
    data := pqtx.data.copy 0 data (strlen data 100)
    datalen := UInt8.ofNat (strlen data 100) }

/-- `process_rx_packet`, of the packet `prx` in the buffer at the handle `p`. -/
def processRxPacket (myconfig : ConfigT) (p : Nat) (prx : Packet) (env : RxHandlerEnv) :
    Traced RxHandlerEvent PUnit := do
  if prx.length > 0 then
    tell [.printData env.pqrx.data]
    -- The result of `packet2paquet` is not looked at.
    let (_, pqrx) := val (packet2paquet prx env.pqrx)
    let pqtx := pongPaquet myconfig pqrx env
    match env.freePacket with
    | some (q, ptx) =>
      let (_, _, ptx) := val (paquet2packet pqtx ptx)
      tell [.txPacket (some (q, ptx))]
    | none =>
      tell [.encodeToNull]
      tell [.txPacket none]
  tell [.freePacket p]

/-- What a log passes to `tx_packet`. -/
def transmitted (l : List RxHandlerEvent) : List (Option (Nat × Packet)) :=
  l.filterMap fun | .txPacket b => some b | _ => none

/-- The buffers a log frees. -/
def freed (l : List RxHandlerEvent) : List Nat :=
  l.filterMap fun | .freePacket p => some p | _ => none

/-! ## What is asked of it -/

/-- The packet is decoded, and its payload is `PING`. -/
def IsPing (prx : Packet) (pqrx : Paquet) : Prop :=
  (val (packet2paquet prx pqrx)).1 = 1 ∧ (val (packet2paquet prx pqrx)).2.payload = ascii "PING"

/-- The frame is decoded to a `PONG` from the node to the sender of `prx`. -/
structure IsPong (myconfig : ConfigT) (prx : Packet) (pqrx : Paquet) (f : Packet) : Prop where
  ok : ∀ pq, (val (packet2paquet f pq)).1 = 1
  payload : ∀ pq, (val (packet2paquet f pq)).2.payload = ascii "PONG"
  smac : ∀ pq, (val (packet2paquet f pq)).2.smac = myconfig.smac
  dmac : ∀ pq, (val (packet2paquet f pq)).2.dmac = (val (packet2paquet prx pqrx)).2.smac

/-- A ping is answered when there is a buffer, nothing is sent otherwise, and
the received buffer is given back once. -/
structure AnswersPing (myconfig : ConfigT) (p : Nat) (prx : Packet) (env : RxHandlerEnv)
    (l : List RxHandlerEvent) : Prop where
  pong : ∀ b, IsPing prx env.pqrx → env.freePacket = some b →
    ∃ f, transmitted l = [some (b.1, f)] ∧ IsPong myconfig prx env.pqrx f
  silent : ¬ IsPing prx env.pqrx ∨ env.freePacket = none → transmitted l = []
  freed : freed l = [p]

/-! ## What it does -/

variable (myconfig : ConfigT) (p : Nat) (prx : Packet) (env : RxHandlerEnv)

theorem freed_once : freed (log (processRxPacket myconfig p prx env)) = [p] := by
  unfold processRxPacket
  by_cases h : prx.length > 0
  · rw [if_pos h]
    cases env.freePacket with
    | none => rfl
    | some b => rfl
  · rw [if_neg h]
    rfl

/-- The zeroed array is the empty string. -/
theorem strlen_zeroed (data : Mem UInt8) : strlen (data.fill 0 0 100) 100 = 0 := by
  have hzero : data.fill 0 0 100 (0 + 0) = 0 := by simp [Mem.fill]
  rw [strlen, Mem.cstr_of_nul (by decide) hzero, Mem.slice_zero]
  rfl

theorem pongPaquet_datalen (pqrx : Paquet) : (pongPaquet myconfig pqrx env).datalen = 0 := by
  simp only [pongPaquet, strlen_zeroed]
  rfl

/-- Whatever arrives, `tx_packet` is called once, with an empty frame if there
is a buffer. -/
theorem transmitted_eq (h : prx.length ≠ 0) :
    transmitted (log (processRxPacket myconfig p prx env)) =
      [env.freePacket.map fun b =>
        (b.1, (val (paquet2packet (pongPaquet myconfig (val (packet2paquet prx env.pqrx)).2 env) b.2)).2.2)] := by
  have hpos : prx.length > 0 := UInt8.pos_iff_ne_zero.mpr h
  unfold processRxPacket
  rw [if_pos hpos]
  cases env.freePacket with
  | none => rfl
  | some b => rfl

/-- A frame of an empty paquet is decoded to an empty payload. -/
theorem payload_empty {pqtx : Paquet} (h : pqtx.datalen = 0) (ptx : Packet) (pq : Paquet) :
    (val (packet2paquet (val (paquet2packet pqtx ptx)).2.2 pq)).2.payload = [] := by
  have hlength : (val (paquet2packet pqtx ptx)).2.2.length.toNat = 25 := by
    rw [paquet2packet_val, h]
    rfl
  rw [packet2paquet_val _ _ (by rw [hlength]), Paquet.payload, Packet.decoded, decoded_datalen, hlength]
  exact Mem.slice_zero ..

/-- **When the handler answers a ping and only a ping**: when the packet is empty. -/
theorem answersPing_iff :
    AnswersPing myconfig p prx env (log (processRxPacket myconfig p prx env)) ↔ prx.length = 0 := by
  constructor
  · intro h
    by_contra hne
    have hsent := transmitted_eq myconfig p prx env hne
    by_cases hping : IsPing prx env.pqrx
    · cases hfree : env.freePacket with
      | none =>
        have hsilent := h.silent (.inr hfree)
        rw [hsent] at hsilent
        cases hsilent
      | some b =>
        obtain ⟨f, hf, hpong⟩ := h.pong b hping hfree
        rw [hsent, hfree, List.singleton_inj, Option.map_some, Option.some.injEq, Prod.mk.injEq] at hf
        have hempty := payload_empty (pongPaquet_datalen myconfig env (val (packet2paquet prx env.pqrx)).2) b.2 .zero
        rw [hf.2, hpong.payload .zero] at hempty
        cases hempty
    · have hsilent := h.silent (.inl hping)
      rw [hsent] at hsilent
      cases hsilent
  · intro h
    have hrunt : ¬ IsPing prx env.pqrx := by
      rw [IsPing, packet2paquet_runt prx env.pqrx (by rw [h]; decide)]
      rintro ⟨hok, -⟩
      cases hok
    refine ⟨fun b hping _ => absurd hping hrunt, fun _ => ?_, freed_once myconfig p prx env⟩
    unfold processRxPacket
    rw [if_neg (by rw [h]; decide)]
    rfl

/-- The frame of a `PING` with zero addresses. -/
def pingPacket : Packet := { length := 29, offset := 0, data := fun i => (ascii "PING").getD (i - 23) 0 }

/-- A ping is answered with an empty frame. -/
theorem ping_unanswered :
    ¬ AnswersPing fullConfig 0 pingPacket { pqrx := .zero, pqtx := .zero, data := fun _ => 0, freePacket := some (1, .zero) }
      (log (processRxPacket fullConfig 0 pingPacket
        { pqrx := .zero, pqtx := .zero, data := fun _ => 0, freePacket := some (1, .zero) })) := by
  intro h
  have hping : IsPing pingPacket .zero := ⟨by rfl, by rfl⟩
  obtain ⟨f, hf, hpong⟩ := h.pong (1, .zero) hping rfl
  rw [transmitted_eq _ _ _ _ (by decide), List.singleton_inj, Option.map_some, Option.some.injEq, Prod.mk.injEq] at hf
  have hempty := payload_empty (pongPaquet_datalen fullConfig
    { pqrx := .zero, pqtx := .zero, data := fun _ => 0, freePacket := some (1, .zero) }
    (val (packet2paquet pingPacket .zero)).2) .zero .zero
  rw [hf.2, hpong.payload .zero] at hempty
  cases hempty

end OflMetrics
