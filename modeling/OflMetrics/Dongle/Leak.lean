/-
What the dongle prints about a packet, and what of earlier packets shows in
it: `main` decodes all packets to the one paquet `pk` and does not look at
the result of `packet2paquet`.

The line of a packet that is long enough is its own up to the end of the
paquet, where the printed string may go on (`decoded_memory`); the line of a
runt has the addresses and the length of the packet before it. So the lines
are independent exactly for the packets of `independent_iff`.
-/
import OflMetrics.Dongle.FirmwareFacts

namespace OflMetrics

open Embed Embed.Traced Embed.CString

/-- The lines a log prints. -/
def printed (l : List DongleEvent) : List (List UInt8) :=
  l.filterMap fun | .print text => some text | _ => none

/-- Turns of the loop in which only packets arrive. -/
def received (ps : List (Nat × Packet)) : List LoopInput := ps.map fun b => { rxPacket := some b, serial := none }

/-- The lines printed for a packet that arrives after others. -/
def linesFor (s : Dongle) (before : List (Nat × Packet)) (b : Nat × Packet) : List (List UInt8) :=
  printed (log (dongleLoop (val (dongleRun s (received before))) { rxPacket := some b, serial := none }))

/-- The lines printed for a packet in `DUMP_HUMAN` mode are the same whatever
`pk` held at first and whatever was received before. -/
def Independent (p : Packet) : Prop :=
  ∀ s s' : Dongle, s.monitorMode = DUMP_HUMAN → s'.monitorMode = DUMP_HUMAN →
    ∀ (before before' : List (Nat × Packet)) (h h' : Nat), linesFor s before (h, p) = linesFor s' before' (h', p)

/-! ## The loop -/

theorem dongleLoop_received (s : Dongle) (b : Nat × Packet) :
    val (dongleLoop s { rxPacket := some b, serial := none }) = { s with pk := (val (packet2paquet b.2 s.pk)).2 } := by
  rw [dongleLoop_val, receivePacket_val]
  rfl

/-- Packets do not end the dump. -/
theorem dongleRun_received_mode (s : Dongle) (ps : List (Nat × Packet)) :
    (val (dongleRun s (received ps))).monitorMode = s.monitorMode := by
  induction ps generalizing s with
  | nil => rfl
  | cons b ps ih =>
    have hrest := ih (val (dongleLoop s { rxPacket := some b, serial := none }))
    rw [dongleLoop_received] at hrest
    exact hrest

theorem linesFor_eq {s : Dongle} (h : s.monitorMode = DUMP_HUMAN) (before : List (Nat × Packet)) (b : Nat × Packet) :
    linesFor s before b =
      [dumpHuman (val (packet2paquet b.2 (val (dongleRun s (received before))).pk)).2] := by
  have hmode : (val (dongleRun s (received before))).monitorMode = DUMP_HUMAN :=
    (dongleRun_received_mode s before).trans h
  rw [linesFor, dongleLoop_log]
  simp only [receivePacket, log_bind, log_tell, val_bind, val_pure, hmode, if_true]
  rfl

/-- It is the same for every content of `pk`. -/
theorem independent_iff_pk (p : Packet) :
    Independent p ↔ ∀ pk pk', dumpHuman (val (packet2paquet p pk)).2 = dumpHuman (val (packet2paquet p pk')).2 := by
  constructor
  · intro h pk pk'
    have hlines := h { sampleDongle with monitorMode := DUMP_HUMAN, pk }
      { sampleDongle with monitorMode := DUMP_HUMAN, pk := pk' } rfl rfl [] [] 0 0
    rw [linesFor_eq rfl, linesFor_eq rfl] at hlines
    exact List.singleton_inj.mp hlines
  · intro h s s' hs hs' before before' b b'
    rw [linesFor_eq hs, linesFor_eq hs']
    exact congrArg (fun line => [line]) (h _ _)

/-! ## The paquet -/

/-- The number of bytes from `pk.data` on that a packet fills or clears, with
`crc`. -/
def Packet.reach (p : Packet) : Nat := max (paquetMaxDatasize + 2) (p.length.toNat - 25)

/-- What is at each of them. -/
def Packet.ownByte (p : Packet) (i : Nat) : UInt8 :=
  if paquetMaxDatasize ≤ i ∧ i - paquetMaxDatasize < 2 then
    p.data (25 + (p.length.toNat - 25) + (i - paquetMaxDatasize))
  else if i < p.length.toNat - 25 then p.data (23 + i) else 0

theorem decoded_memory (p : Packet) (data : Mem UInt8) (i : Nat) :
    (p.decoded data).data.store paquetMaxDatasize (p.decoded data).crc i =
      if i < p.reach then p.ownByte i else data i := by
  rw [Mem.store, Packet.ownByte]
  by_cases hcrc : paquetMaxDatasize ≤ i ∧ i - paquetMaxDatasize < 2
  · have hreach : i < p.reach := by
      rw [Packet.reach]
      omega
    rw [dif_pos hcrc, if_pos hreach, if_pos hcrc]
    simp [Packet.decoded, Mem.load]
  · rw [dif_neg hcrc, if_neg hcrc]
    simp only [Packet.decoded, Mem.copy, Mem.drop, Mem.fill, Nat.zero_le, true_and, Nat.zero_add, Nat.sub_zero]
    by_cases hlen : i < p.length.toNat - 25
    · have hreach : i < p.reach := Nat.lt_of_lt_of_le hlen (Nat.le_max_right _ _)
      rw [if_pos hlen, if_pos hreach, if_pos hlen]
    · rw [if_neg hlen]
      by_cases hpad : i < paquetMaxDatasize
      · have hreach : i < p.reach := by
          rw [Packet.reach]
          omega
        rw [if_pos hpad, if_pos hreach, if_neg hlen]
      · have hreach : ¬ i < p.reach := by
          rw [Packet.reach]
          omega
        rw [if_neg hpad, if_neg hreach]

theorem reach_le (p : Packet) : p.reach ≤ 230 := by
  have hlen := p.length.toNat_lt
  simp only [Packet.reach, paquetMaxDatasize]
  omega

/-- A string that ends inside the paquet is the packet's own. -/
theorem decoded_text_of_zero {p : Packet} {k : Nat} (hk : k < p.reach) (hzero : p.ownByte k = 0)
    (data data' : Mem UInt8) : (p.decoded data).text = (p.decoded data').text := by
  have hlt : k < 256 := Nat.lt_of_lt_of_le hk (Nat.le_trans (reach_le p) (by decide))
  have hnul (data : Mem UInt8) : (p.decoded data).data.store paquetMaxDatasize (p.decoded data).crc (0 + k) = 0 := by
    rw [Nat.zero_add, decoded_memory, if_pos hk, hzero]
  have hslice : Mem.slice ((p.decoded data).data.store paquetMaxDatasize (p.decoded data).crc) 0 k =
      Mem.slice ((p.decoded data').data.store paquetMaxDatasize (p.decoded data').crc) 0 k := by
    refine Mem.slice_congr fun i hi => ?_
    have hown : 0 + i < p.reach := by omega
    rw [decoded_memory, decoded_memory, if_pos hown, if_pos hown]
  rw [Paquet.text, Paquet.text, Mem.cstr_of_nul hlt (hnul data), Mem.cstr_of_nul hlt (hnul data'), hslice]

/-- One that does not takes in what lies behind. -/
theorem length_decoded_text {p : Packet} (hown : ∀ i < p.reach, p.ownByte i ≠ 0) {data : Mem UInt8} {n : Nat}
    (hn : p.reach + n < 256) (hbehind : ∀ i, p.reach ≤ i → i < p.reach + n → data i ≠ 0)
    (hzero : data (p.reach + n) = 0) : (p.decoded data).text.length = p.reach + n := by
  have htext : (p.decoded data).text =
      Mem.slice ((p.decoded data).data.store paquetMaxDatasize (p.decoded data).crc) 0 (p.reach + n) := by
    refine Mem.cstr_eq (by rw [Mem.length_slice]) ?_ ?_ (by rwa [Mem.length_slice])
    · rw [Mem.length_slice, Nat.zero_add, decoded_memory, if_neg (by omega), hzero]
    · intro a ha
      obtain ⟨i, hi, rfl⟩ := List.getElem_of_mem ha
      rw [Mem.length_slice] at hi
      rw [Mem.getElem_slice, Nat.zero_add, decoded_memory]
      split
      · next hlt => exact hown i hlt
      · next hge => exact hbehind i (by omega) hi
  rw [htext, Mem.length_slice]

/-! ## Lines -/

theorem length_percent02X (b : UInt8) : (percent02X b).length = 2 := by
  rw [percent02X, List.length_map, Printf.length_hex2]

theorem length_macText (mac : Vector UInt8 8) : (macText mac).length = 8 := by
  simp only [macText, List.length_append, length_percent02X]

theorem length_dumpHuman (pk : Paquet) : (dumpHuman pk).length = 28 + pk.text.length := by
  have hrx : (ascii "RX: ").length = 4 := rfl
  have hbar : (ascii "|").length = 1 := rfl
  have hend : (ascii "|\r\n").length = 3 := rfl
  simp only [dumpHuman, List.flatten_cons, List.flatten_nil, List.length_append, List.length_nil, hrx, hbar, hend,
    length_macText, length_percent02X]
  omega

/-- A runt shows the addresses of the packet before it. -/
theorem runt_not_independent {p : Packet} (h : p.length.toNat < 25) : ¬ Independent p := by
  rw [independent_iff_pk]
  intro hsame
  have hlines := hsame .zero { Paquet.zero with smac := #v[1, 0, 0, 0, 0, 0, 0, 0] }
  rw [packet2paquet_runt p _ h, packet2paquet_runt p _ h] at hlines
  exact absurd hlines (by decide +kernel)

/-- **When a packet's line is its own**: it is no runt, and the string ends
inside the paquet, as it always does for a packet of at most 144 bytes. -/
theorem independent_iff (p : Packet) :
    Independent p ↔
      25 ≤ p.length.toNat ∧ (p.length.toNat ≤ 144 ∨ ∃ i < p.reach, p.ownByte i = 0) := by
  by_cases hrunt : p.length.toNat < 25
  · exact iff_of_false (runt_not_independent hrunt) fun h => absurd hrunt (Nat.not_lt.mpr h.1)
  have hlen : 25 ≤ p.length.toNat := Nat.not_lt.mp hrunt
  have hval (pk : Paquet) : (val (packet2paquet p pk)).2 = p.decoded pk.data := by rw [packet2paquet_val p pk hlen]
  rw [independent_iff_pk]
  simp only [hval, hlen, true_and]
  constructor
  · intro h
    by_contra hno
    rw [not_or] at hno
    have hown : ∀ i < p.reach, p.ownByte i ≠ 0 := fun i hi hz => hno.2 ⟨i, hi, hz⟩
    have hreach := reach_le p
    have hlines := h { Paquet.zero with data := fun _ => 0 }
      { Paquet.zero with data := fun i => if i = p.reach then 1 else 0 }
    have hlengths := congrArg List.length hlines
    rw [length_dumpHuman, length_dumpHuman] at hlengths
    have hshort : (p.decoded fun _ => 0).text.length = p.reach + 0 :=
      length_decoded_text hown (by omega) (fun i hi hi' => absurd hi' (Nat.not_lt.mpr hi)) rfl
    have hlong : (p.decoded fun i => if i = p.reach then 1 else 0).text.length = p.reach + 1 := by
      refine length_decoded_text hown (by omega) (fun i hi hi' => ?_) (if_neg (Nat.succ_ne_self _))
      rw [if_pos (show i = p.reach by omega)]
      decide
    rw [hshort, hlong] at hlengths
    omega
  · intro h pk pk'
    have hzero : ∃ i < p.reach, p.ownByte i = 0 := by
      cases h with
      | inr h => exact h
      | inl h =>
        -- The byte behind the payload was cleared.
        refine ⟨p.length.toNat - 25, ?_, ?_⟩
        · simp only [Packet.reach, paquetMaxDatasize]
          omega
        · rw [Packet.ownByte, if_neg (by simp only [paquetMaxDatasize]; omega), if_neg (Nat.lt_irrefl _)]
    obtain ⟨k, hk, hz⟩ := hzero
    have htext := decoded_text_of_zero hk hz pk.data pk'.data
    rw [dumpHuman, dumpHuman, htext]
    rfl

/-- A packet of 24 bytes. -/
def runt : Packet := { Packet.zero with length := 24 }

theorem runt_leaks : ¬ Independent runt := runt_not_independent (by decide)

end OflMetrics