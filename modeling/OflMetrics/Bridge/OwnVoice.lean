/-
Whose packets the bridge broadcasts when the dongle prints a frame.

The first line has the source of the frame. The payload is printed as it is,
so behind a line feed in it the bridge sees a line of its own, and takes it
for a packet of the node it names (`own_voice_iff`).
-/
import OflMetrics.Bridge.DumpLine

namespace OflMetrics

open Embed Embed.Traced Embed.CString

/-- The string that a frame's payload prints as. -/
def Packet.payloadText (p : Packet) : List UInt8 :=
  (p.data.slice 23 (p.length.toNat - 25)).takeWhile (· ≠ 0)

/-- The lines that begin in a frame's payload. -/
def Packet.innerLines (p : Packet) : List (List UInt8) :=
  (lines IsNewline (p.payloadText ++ ascii "|\r\n")).tail

section

variable (decode : List UInt8 → List Char)

/-- A line that the bridge takes for a packet with a source. -/
def Forged (l : List UInt8) : Prop :=
  StartsRX l ∧ 3 ≤ (pastPrefix l).count 0x7C ∧ (decode (pastPrefix l)).head? ≠ some '|'

end

/-- The sources of packets, those that have one. -/
def sources (ps : List BridgePacket) : List (List Char) := (ps.map (·.srcNodeId)).filter (· ≠ [])

/-- The port with no timeout between the bytes of what the dongle prints for a packet. -/
def printedInTime (s : Dongle) (before : List (Nat × Packet)) (b : Nat × Packet) : List SerialEvent :=
  inTime (linesFor s before b).flatten

variable {decode : List UInt8 → List Char}

/-! ## Sources -/

theorem sources_append (ps ps' : List BridgePacket) : sources (ps ++ ps') = sources ps ++ sources ps' := by
  rw [sources, List.map_append, List.filter_append]
  rfl

theorem sources_flatMap_eq_nil {β : Type} (f : β → List BridgePacket) (l : List β) :
    sources (l.flatMap f) = [] ↔ ∀ x ∈ l, sources (f x) = [] := by
  induction l with
  | nil => simp [sources]
  | cons x l ih => rw [List.flatMap_cons, sources_append, List.append_eq_nil_iff, ih, List.forall_mem_cons]

/-- Only a forged line gives a source. -/
theorem sources_packetsOf (hd : ReadsAscii decode) (l : List UInt8) :
    sources (packetsOf decode l) = [] ↔ ¬ Forged decode l := by
  by_cases hrx : StartsRX l
  · rw [packetsOf, if_pos hrx, packetOf]
    by_cases hbars : 3 ≤ (pastPrefix l).count 0x7C
    · have hsrc : (packetFields decode (pastPrefix l)).srcNodeId = (decode (pastPrefix l)).takeWhile (· != '|') := by
        rw [packetFields, List.getD_eq_getElem?_getD, ← List.head?_eq_getElem?, head_splitOn, Option.getD_some]
      have hbar : '|' ∈ decode (pastPrefix l) := by
        rw [← List.count_pos_iff, hd.bars]
        omega
      rw [packetInitialize_fields hd hbars, Forged, sources]
      simp only [List.map_cons, List.map_nil, hsrc, hrx, hbars, true_and]
      cases hdecode : decode (pastPrefix l) with
      | nil => exact absurd (hdecode ▸ hbar) List.not_mem_nil
      | cons c s =>
        by_cases hc : c = '|' <;> simp [hc]
    · have hempty : BridgePacket.new.srcNodeId = [] := rfl
      rw [packetInitialize_few hd (Nat.lt_of_not_le hbars), Forged, sources]
      simp [hempty, hbars]
  · rw [packetsOf, if_neg hrx]
    exact iff_of_true rfl fun h => hrx h.1

/-! ## The frame's own line -/

/-- The payload as `dump_human` prints it. -/
theorem decoded_text {p : Packet} (h25 : 25 ≤ p.length.toNat) (h125 : p.length.toNat ≤ 125) (data : Mem UInt8) :
    (p.decoded data).text = p.payloadText := by
  have hmem (i : Nat) (hi : i ≤ p.length.toNat - 25) :
      (p.decoded data).data.store paquetMaxDatasize (p.decoded data).crc i =
        if i < p.length.toNat - 25 then p.data (23 + i) else 0 := by
    have hown : i < p.reach := by
      simp only [Packet.reach, paquetMaxDatasize]
      omega
    rw [decoded_memory, if_pos hown, Packet.ownByte, if_neg (by simp only [paquetMaxDatasize]; omega)]
  have hnul := hmem (p.length.toNat - 25) (Nat.le_refl _)
  rw [if_neg (Nat.lt_irrefl _)] at hnul
  rw [Paquet.text, Mem.cstr_of_nul (k := p.length.toNat - 25) (by omega) (by rwa [Nat.zero_add]), Packet.payloadText]
  congr 1
  refine Mem.slice_congr fun i hi => ?_
  rw [Nat.zero_add, hmem i (Nat.le_of_lt hi), if_pos hi]

/-- The lines of what is printed: the first has the fields, the others begin in
the payload. -/
theorem lines_dumpHuman {pk : Paquet} {l : List UInt8} {ls : List (List UInt8)}
    (h : lines IsNewline (pk.text ++ ascii "|\r\n") = l :: ls) :
    lines IsNewline (dumpHuman pk) = (ascii "RX: " ++ (dumpFields pk ++ l)) :: ls := by
  have hfirst : ∀ b ∈ ascii "RX: ", IsNewline b = false := by decide +kernel
  have hfields : ∀ b ∈ dumpFields pk, IsNewline b = false :=
    isNewline_of_not_mem fun hmem => (dumpFields_plain hmem).2.2 rfl
  rw [dumpHuman_eq, lines, linesFrom_append hfirst, linesFrom_append hfields, linesFrom_eq_modifyHead, h,
    List.nil_append, List.modifyHead_cons, List.append_assoc]

/-- The first line is the source's. -/
theorem packetsOf_own (hd : ReadsAscii decode) (pk : Paquet) (l : List UInt8) :
    ∃ q, packetsOf decode (ascii "RX: " ++ (dumpFields pk ++ l)) = [q] ∧ q.srcNodeId = hexText (pk.smac.toList.take 4) := by
  have hrx : StartsRX (ascii "RX: " ++ (dumpFields pk ++ l)) := rfl
  have hnul : ∀ x ∈ dumpFields pk, decide (x ≠ 0) = true := fun x hx => decide_eq_true (dumpFields_plain hx).2.1
  have hpast : pastPrefix (ascii "RX: " ++ (dumpFields pk ++ l)) = dumpFields pk ++ (l ++ [10]).takeWhile (· ≠ 0) := by
    have hdrop : (ascii "RX: " ++ (dumpFields pk ++ l) ++ [10]).drop 4 = dumpFields pk ++ (l ++ [10]) := by
      rw [List.append_assoc, List.append_assoc]
      rfl
    rw [pastPrefix, hdrop, List.takeWhile_append_of_pos hnul]
  obtain ⟨y, -, hfields⟩ := packetFields_dump hd pk ((l ++ [10]).takeWhile (· ≠ 0))
  rw [packetsOf, if_pos hrx, packetOf, hpast, packetInitialize_fields hd (count_dumpFields pk _), hfields]
  exact ⟨_, rfl, rfl⟩

theorem hexText_ne_nil {mac : List UInt8} (h : mac ≠ []) : hexText mac ≠ [] := by
  obtain ⟨b, bs, rfl⟩ := List.exists_cons_of_ne_nil h
  exact List.cons_ne_nil _ _

theorem sources_own {q : BridgePacket} {mac : List UInt8} (hq : q.srcNodeId = hexText mac) (hmac : mac ≠ [])
    (ps : List BridgePacket) (hps : sources ps = []) : sources ([q] ++ ps) = [hexText mac] := by
  have hown : sources [q] = [hexText mac] := by
    simp [sources, hq, hexText_ne_nil hmac]
  rw [sources_append, hown, hps, List.append_nil]

/-- What the dongle prints for a frame, after any others. -/
theorem exists_printed {s : Dongle} (hs : s.monitorMode = DUMP_HUMAN) (before : List (Nat × Packet)) (buf : Nat)
    {p : Packet} (h25 : 25 ≤ p.length.toNat) :
    ∃ data, (linesFor s before (buf, p)).flatten = dumpHuman (p.decoded data) := by
  refine ⟨(val (dongleRun s (received before))).pk.data, ?_⟩
  rw [linesFor_eq hs, packet2paquet_val p _ h25, List.flatten_singleton]

theorem linesFit_dumpHuman {p : Packet} (h25 : 25 ≤ p.length.toNat) (h125 : p.length.toNat ≤ 125) (data : Mem UInt8) :
    LinesFit 0 (dumpHuman (p.decoded data)) := by
  have hlength := length_dumpHuman (p.decoded data)
  have htext : p.payloadText.length ≤ p.length.toNat - 25 := by
    have hle := (List.takeWhile_sublist (l := p.data.slice 23 (p.length.toNat - 25)) (· ≠ 0)).length_le
    rwa [Mem.length_slice] at hle
  rw [decoded_text h25 h125, dumpHuman_body, List.length_append, List.length_singleton] at hlength
  rw [dumpHuman_body]
  exact linesFit_short (by omega)

theorem slice_source_ne_nil (p : Packet) : p.data.slice 15 4 ≠ [] := by
  intro hnil
  have hlength := Mem.length_slice p.data 15 4
  rw [hnil] at hlength
  cases hlength

/-- What the bridge broadcasts for a frame: a packet of the frame's source, and
those of the lines that begin in the payload. -/
theorem run_frame (hd : ReadsAscii decode) {p : Packet} (h25 : 25 ≤ p.length.toNat) (h125 : p.length.toNat ≤ 125)
    {s : Dongle} (hs : s.monitorMode = DUMP_HUMAN) (before : List (Nat × Packet)) (buf : Nat) {t : SerialThread}
    (ht : t.state = 3) (harriving : t.arriving = printedInTime s before (buf, p)) {as : List PortAnswers}
    (has : t.arriving.length ≤ as.length) :
    ∃ q, q.srcNodeId = hexText (p.data.slice 15 4) ∧
      (t.run decode as).broadcast = t.broadcast ++ ([q] ++ p.innerLines.flatMap (packetsOf decode)) := by
  obtain ⟨data, hprinted⟩ := exists_printed hs before buf h25
  rw [printedInTime, hprinted] at harriving
  have hsmac : (p.decoded data).smac.toList.take 4 = p.data.slice 15 4 := by
    have hload : (p.decoded data).smac.toList = p.data.slice 15 (4 + 4) := Mem.load_toList p.data 15 8
    rw [hload, Mem.slice_add, List.take_left' (Mem.length_slice _ _ _)]
  obtain ⟨l, ls, hlines⟩ : ∃ l ls, lines IsNewline (p.payloadText ++ ascii "|\r\n") = l :: ls := by
    have hend : ascii "|\r\n" = [0x7C, 13] ++ [10] := rfl
    rw [hend, ← List.append_assoc]
    exact List.exists_cons_of_ne_nil (linesFrom_ne_nil rfl _ [] [])
  have hinner : p.innerLines = ls := by rw [Packet.innerLines, hlines, List.tail_cons]
  rw [← decoded_text h25 h125 data] at hlines
  have hevents : t.arriving = afterTimeouts 0 (dumpHuman (p.decoded data)) := harriving
  have hbroadcast := run_afterTimeouts decode ht hevents (linesFit_dumpHuman h25 h125 data) has
  obtain ⟨q, hown, hsource⟩ := packetsOf_own hd (p.decoded data) l
  rw [lines_dumpHuman hlines, List.flatMap_cons, hown] at hbroadcast
  exact ⟨q, hsmac ▸ hsource, hinner ▸ hbroadcast⟩

/-- **When a node speaks for itself only**: exactly when no line that begins in
the payload is forged. -/
theorem own_voice_iff (hd : ReadsAscii decode) {p : Packet} (h25 : 25 ≤ p.length.toNat) (h125 : p.length.toNat ≤ 125)
    {s : Dongle} (hs : s.monitorMode = DUMP_HUMAN) (before : List (Nat × Packet)) (buf : Nat) {t : SerialThread}
    (ht : t.state = 3) (harriving : t.arriving = printedInTime s before (buf, p)) {as : List PortAnswers}
    (has : t.arriving.length ≤ as.length) :
    ∃ new, (t.run decode as).broadcast = t.broadcast ++ new ∧
      (sources new = [hexText (p.data.slice 15 4)] ↔ ∀ l ∈ p.innerLines, ¬ Forged decode l) := by
  obtain ⟨q, hsource, hbroadcast⟩ := run_frame hd h25 h125 hs before buf ht harriving has
  refine ⟨_, hbroadcast, ?_⟩
  rw [← forall_congr' fun l => imp_congr_right fun _ => sources_packetsOf hd l, ← sources_flatMap_eq_nil]
  constructor
  · intro hone
    have hown : sources [q] = [hexText (p.data.slice 15 4)] :=
      sources_own hsource (slice_source_ne_nil p) [] rfl
    rw [sources_append, hown] at hone
    exact List.append_right_eq_self.mp hone
  · exact sources_own hsource (slice_source_ne_nil p) _

/-! ## Examples -/

/-- A dongle that dumps packets. -/
def dumpingDongle : Dongle := { sampleDongle with monitorMode := DUMP_HUMAN }

/-- A frame from the node `0A0B0C0D`. -/
def frameWith (payload : List UInt8) : Packet :=
  { Packet.zero with
    length := UInt8.ofNat (25 + payload.length)
    data := fun i => (List.replicate 15 0 ++ [0x0A, 0x0B, 0x0C, 0x0D, 0, 0, 0, 0] ++ payload).getD i 0 }

theorem own_voice_iff_report :
    ∃ new, ((listening (printedInTime dumpingDongle [] (0, frameWith (ascii "hi")))).run latin1 (turns 70)).broadcast =
        [] ++ new ∧ sources new = ["0A0B0C0D".toList] := by
  have hturns : (printedInTime dumpingDongle [] (0, frameWith (ascii "hi"))).length ≤ (turns 70).length := by
    decide +kernel
  obtain ⟨new, hnew, hiff⟩ := own_voice_iff latin1_readsAscii (p := frameWith (ascii "hi")) (by decide) (by decide)
    (s := dumpingDongle) rfl [] 0 (t := listening (printedInTime dumpingDongle [] (0, frameWith (ascii "hi")))) rfl rfl
    hturns
  have hinner : (frameWith (ascii "hi")).innerLines = [] := by decide +kernel
  refine ⟨new, hnew, (hiff.mpr ?_).trans (by decide)⟩
  rw [hinner]
  exact fun l hl => absurd hl List.not_mem_nil

/-- A frame with a line of another node in its payload. -/
def forgingFrame : Packet := frameWith (ascii "\nRX: 00000001|FFFFFFFF|02|no")

/-- The bridge hears two nodes. -/
theorem voice_forged :
    sources ((listening (printedInTime dumpingDongle [] (0, forgingFrame))).run latin1 (turns 70)).broadcast =
        ["0A0B0C0D".toList, "00000001".toList] ∧
      sources ((listening (printedInTime dumpingDongle [] (0, forgingFrame))).run latin1 (turns 70)).broadcast ≠
        [hexText (forgingFrame.data.slice 15 4)] := by
  have htwo : sources ((listening (printedInTime dumpingDongle [] (0, forgingFrame))).run latin1 (turns 70)).broadcast =
      ["0A0B0C0D".toList, "00000001".toList] := by decide +kernel
  refine ⟨htwo, fun hone => ?_⟩
  have hlength := congrArg List.length (htwo.symm.trans hone)
  cases hlength

end OflMetrics
