/-
The frame that a cycle of the node sends.

A report is made of digits, capitals and a few signs (`reportText_chars`), so the
frame of a report that fits is one that the dongle prints in a line and the bridge
reads back: its packet has the address of the node, the address it sends to and the
text of the report (`NodeCycle.Sends.plain`, `sent_report`).
-/
import OflMetrics.Bridge.Delivery
import OflMetrics.Node.Cycle
import OflMetrics.Node.ReportItems

namespace OflMetrics

open Embed Embed.Traced Embed.Printf Embed.KeyValue

/-- A cycle of the main loop. -/
structure NodeCycle where
  state : NodeState
  input : CycleInput

/-- What it reports. -/
def NodeCycle.text (c : NodeCycle) : List Char :=
  reportText c.state.bme280Presence c.state.config c.state.mainLoopCount c.input.readings

/-- The items of it. -/
def NodeCycle.items (c : NodeCycle) : List Item :=
  reportItems c.state.bme280Presence c.state.config c.state.mainLoopCount c.input.readings

/-- It sends the frame `pk`. -/
def NodeCycle.Sends (c : NodeCycle) (pk : Packet) : Prop := ∃ p, .txPacket p pk ∈ log (mainLoop c.state c.input)

/-! ## The characters of a report -/

/-- A character of a value. -/
def IsValueChar (c : Char) : Prop := IsNumeral c ∨ c = '+' ∨ c = '.'

/-- The characters of a report. -/
def reportChars : List Char := "0123456789-ABCDEF+.GHIKLMNOPRSTUVWX_:;".toList

theorem mem_reportChars {l : List Char} (h : l.all reportChars.contains = true) {c : Char} (hc : c ∈ l) : c ∈ reportChars :=
  List.contains_iff_mem.mp (List.all_eq_true.mp h c hc)

theorem IsValueChar.mem {c : Char} (h : IsValueChar c) : c ∈ reportChars := by
  have hdigits : ((List.range 10).map fun k => Char.ofNat (48 + k)).all reportChars.contains = true := by decide +kernel
  have hhex : ['A', 'B', 'C', 'D', 'E', 'F'].all reportChars.contains = true := by decide +kernel
  have hsigns : ['-', '+', '.'].all reportChars.contains = true := by decide +kernel
  rcases h with (h | rfl | h) | rfl | rfl
  · obtain ⟨k, rfl⟩ := exists_digit h
    exact mem_reportChars hdigits (List.mem_map.mpr ⟨k, List.mem_range.mpr k.isLt, rfl⟩)
  · exact mem_reportChars hsigns (by simp)
  · exact mem_reportChars hhex h
  · exact mem_reportChars hsigns (by simp)
  · exact mem_reportChars hsigns (by simp)

theorem valueChar_cons {c : Char} {v : List Char} (hc : IsValueChar c) (hv : ∀ c ∈ v, IsValueChar c) :
    ∀ c' ∈ c :: v, IsValueChar c' := List.forall_mem_cons.mpr ⟨hc, hv⟩

theorem valueChar_append {v w : List Char} (hv : ∀ c ∈ v, IsValueChar c) (hw : ∀ c ∈ w, IsValueChar c) :
    ∀ c ∈ v ++ w, IsValueChar c := List.forall_mem_append.mpr ⟨hv, hw⟩

theorem valueChar_plus : IsValueChar '+' := .inr (.inl rfl)
theorem valueChar_minus : IsValueChar '-' := .inl (.inr (.inl rfl))
theorem valueChar_point : IsValueChar '.' := .inr (.inr rfl)

theorem valueChar_dec (n : Nat) : ∀ c ∈ dec n, IsValueChar c := fun _ h => .inl (isNumeral_dec h)
theorem valueChar_zdec (w n : Nat) : ∀ c ∈ zdec w n, IsValueChar c := fun _ h => .inl (isNumeral_zdec h)
theorem valueChar_decInt (i : Int) : ∀ c ∈ decInt i, IsValueChar c := fun _ h => .inl (isNumeral_decInt h)
theorem valueChar_zdecInt (w : Nat) (i : Int) : ∀ c ∈ zdecInt w i, IsValueChar c := fun _ h => .inl (isNumeral_zdecInt h)
theorem valueChar_hex2 (b : UInt8) : ∀ c ∈ hex2 b, IsValueChar c := fun _ h => .inl (isNumeral_hex2 h)

/-- The values of every section. -/
theorem reportItems_values (bme280Presence : Bool) (config : ConfigT) (mainLoopCount : UInt32) (r : Readings) :
    ∀ it ∈ reportItems bme280Presence config mainLoopCount r, ∀ c ∈ it.2, IsValueChar c := by
  have hbattery : ∀ it ∈ batteryItems config mainLoopCount r, ∀ c ∈ it.2, IsValueChar c := by
    unfold batteryItems
    split
    · simp only [List.forall_mem_cons]
      exact ⟨valueChar_zdec _ _, valueChar_append (valueChar_hex2 _) (valueChar_hex2 _), valueChar_dec _,
        valueChar_dec _, valueChar_dec _, List.forall_mem_nil _⟩
    · exact List.forall_mem_nil _
  have hds1820 : ∀ it ∈ ds1820Items bme280Presence config r, ∀ c ∈ it.2, IsValueChar c := by
    unfold ds1820Items
    split
    · cases r.ds1820 with
      | none => exact List.forall_mem_nil _
      | some reading =>
        obtain ⟨sign, cel, frac⟩ := reading
        have hsign : IsValueChar (if sign = 1 then '-' else '+') := by
          split
          · exact valueChar_minus
          · exact valueChar_plus
        simp only [ds1820TextItems]
        split
        · exact List.forall_mem_nil _
        · rw [List.forall_mem_singleton]
          exact valueChar_append (valueChar_cons hsign (valueChar_dec _)) (valueChar_cons valueChar_point (valueChar_zdec _ _))
    · exact List.forall_mem_nil _
  have hbme280 : ∀ it ∈ bme280Items bme280Presence r, ∀ c ∈ it.2, IsValueChar c := by
    unfold bme280Items
    split
    · simp only [List.forall_mem_cons]
      exact ⟨valueChar_append (valueChar_decInt _) (valueChar_cons valueChar_point (valueChar_zdecInt _ _)),
        valueChar_zdec _ _,
        valueChar_append (valueChar_cons valueChar_plus (valueChar_dec _)) (valueChar_cons valueChar_point (valueChar_zdec _ _)),
        List.forall_mem_nil _⟩
    · exact List.forall_mem_nil _
  have hlumi : ∀ it ∈ lumiItems config r, ∀ c ∈ it.2, IsValueChar c := by
    unfold lumiItems
    split
    · rw [List.forall_mem_singleton]
      exact valueChar_cons valueChar_plus (valueChar_zdec _ _)
    · exact List.forall_mem_nil _
  have hpower : ∀ it ∈ powerItems config r, ∀ c ∈ it.2, IsValueChar c := by
    unfold powerItems
    split
    · rw [List.forall_mem_singleton]
      exact valueChar_cons valueChar_plus (valueChar_zdec _ _)
    · exact List.forall_mem_nil _
  have herror (e : Nat) : ∀ it ∈ errorItems e, ∀ c ∈ it.2, IsValueChar c := by
    unfold errorItems
    split
    · rw [List.forall_mem_singleton]
      exact valueChar_zdec _ _
    · exact List.forall_mem_nil _
  intro it hit
  simp only [reportItems, List.mem_append] at hit
  rcases hit with ((((h | h) | h) | h) | h) | h
  · exact hbattery it h
  · exact hds1820 it h
  · exact hbme280 it h
  · exact hlumi it h
  · exact hpower it h
  · exact herror _ it h

theorem reportText_chars (c : NodeCycle) : ∀ x ∈ c.text, x ∈ reportChars := by
  have hkeys : (nodeKeys.all fun k => k.all reportChars.contains) = true := by decide +kernel
  have hmarks : [':', ';'].all reportChars.contains = true := by decide +kernel
  intro x hx
  rw [NodeCycle.text, reportText_eq_render, render] at hx
  obtain ⟨it, hit, hx⟩ := List.mem_flatMap.mp hx
  simp only [Item.render, List.mem_append, List.mem_cons, List.not_mem_nil, or_false] at hx
  rcases hx with (hx | rfl | hx) | rfl
  · exact mem_reportChars (List.all_eq_true.mp hkeys it.1 (reportItems_ok _ _ _ _ it hit).key) hx
  · exact mem_reportChars hmarks (by simp)
  · exact (reportItems_values _ _ _ _ it hit x hx).mem
  · exact mem_reportChars hmarks (by simp)

/-- As a byte, it is printable, and it is read back. -/
theorem reportChar_byte {c : Char} (h : c ∈ reportChars) :
    0x20 ≤ UInt8.ofNat c.toNat ∧ UInt8.ofNat c.toNat ≤ 0x7E ∧ UInt8.ofNat c.toNat ≠ 0x7C ∧
      Char.ofUInt8 (UInt8.ofNat c.toNat) = c := by
  have hall : (reportChars.all fun c => decide (0x20 ≤ UInt8.ofNat c.toNat ∧ UInt8.ofNat c.toNat ≤ 0x7E ∧
      UInt8.ofNat c.toNat ≠ 0x7C ∧ Char.ofUInt8 (UInt8.ofNat c.toNat) = c)) = true := by
    decide +kernel
  exact of_decide_eq_true (List.all_eq_true.mp hall c h)

/-! ## The frame -/

/-- The frame of its report, in the buffer `free`. -/
def NodeCycle.frame (c : NodeCycle) (free : Packet) : Packet :=
  (val (paquet2packet (addressed (c.state.withText c.text).txPaquet) free)).2.2

/-- A cycle that gets a buffer sends the frame of its report in it, and no other. -/
theorem NodeCycle.sends_iff (c : NodeCycle) (pk : Packet) :
    c.Sends pk ↔ ∃ b, c.input.freePacket = some b ∧ pk = c.frame b.2 := by
  have hreport := report_events c.state.bme280Presence c.state.config c.state.mainLoopCount c.input.readings
  have hsend (b : Nat × Packet) (p : Nat) : .txPacket p pk ∈ log (sendReport (c.state.withText c.text) b.1 b.2) ↔
      p = b.1 ∧ pk = c.frame b.2 := by
    simp only [sendReport, if_pos (paquet2packet_ne_zero _ _)]
    simp [NodeCycle.frame]
  have hend (s : NodeState) (p : Nat) : .txPacket p pk ∉ log (theEnd s) := by simp [theEnd]
  have hcheck (i : Option (Nat × Packet)) (p : Nat) :
      .txPacket p pk ∈ log (sendAndCheck (c.state.withText c.text) i) ↔ ∃ b, i = some b ∧ p = b.1 ∧ pk = c.frame b.2 := by
    cases i with
    | none => exact iff_of_false (hend _ p) (by simp)
    | some b =>
      have hrest (s : NodeState) :
          .txPacket p pk ∉ log (if Overdue s then do tell [.resetWatchdog]; return none else theEnd s) := by
        rw [log_ite]
        split
        · simp
        · exact hend s p
      simp only [sendAndCheck, log_bind, log_tell, List.mem_append, List.mem_singleton, reduceCtorEq, hrest,
        or_false, hsend, Option.some.injEq, exists_eq_left']
  have hloop (p : Nat) : .txPacket p pk ∈ log (mainLoop c.state c.input) ↔
      ∃ b, c.input.freePacket = some b ∧ p = b.1 ∧ pk = c.frame b.2 := by
    have hquiet : .txPacket p pk ∉ log (report c.state.bme280Presence c.state.config c.state.mainLoopCount c.input.readings) :=
      fun hmem => Bool.noConfusion (List.all_eq_true.mp hreport _ hmem)
    simp only [mainLoop, log_bind, log_tell, List.mem_append, List.mem_singleton, List.mem_map, reduceCtorEq, and_false,
      exists_false, false_or, hquiet]
    exact hcheck c.input.freePacket p
  constructor
  · rintro ⟨p, hmem⟩
    obtain ⟨b, hfree, -, hframe⟩ := (hloop p).mp hmem
    exact ⟨b, hfree, hframe⟩
  · rintro ⟨b, hfree, hframe⟩
    exact ⟨b.1, (hloop b.1).mpr ⟨b, hfree, rfl, hframe⟩⟩

/-- The paquet of a report that fits. -/
theorem withText_payload (s : NodeState) {text : List Char} (hfit : text.length ≤ 100) :
    (addressed (s.withText text).txPaquet).datalen.toNat = text.length ∧
      (addressed (s.withText text).txPaquet).payload = text.map fun c => UInt8.ofNat c.toNat := by
  have hlen : (addressed (s.withText text).txPaquet).datalen.toNat = text.length :=
    UInt8.toNat_ofNat_of_lt' (by simp only [UInt8.size]; omega)
  refine ⟨hlen, ?_⟩
  rw [Paquet.payload, hlen]
  refine List.ext_getElem (by simp) fun i hi _ => ?_
  rw [Mem.length_slice] at hi
  rw [Mem.getElem_slice, List.getElem_map, Nat.zero_add]
  simp only [addressed, NodeState.withText, textData, Mem.copy, Nat.zero_le, true_and, Nat.zero_add,
    if_pos (Nat.lt_succ_of_lt hi), Nat.sub_zero, List.getD_eq_getElem?_getD, List.getElem?_eq_getElem hi, Option.getD_some]

/-- The frame of a cycle whose report fits has the address of the node, the address
it is for and the report. -/
theorem NodeCycle.Sends.plain {c : NodeCycle} {pk : Packet} (h : c.Sends pk) (hfit : c.text.length ≤ 100) :
    pk.Plain ∧ pk.report = ⟨"99000000".toList, "01000000".toList, c.text⟩ := by
  obtain ⟨⟨_, free⟩, -, rfl⟩ := (c.sends_iff pk).mp h
  obtain ⟨hdatalen, hpayload⟩ := withText_payload c.state hfit
  obtain ⟨hplain, hreport⟩ := paquet2packet_report (addressed (c.state.withText c.text).txPaquet) (by omega)
    (fun b hb => by
      rw [hpayload] at hb
      obtain ⟨x, hx, rfl⟩ := List.mem_map.mp hb
      obtain ⟨hlow, hhigh, hbar, -⟩ := reportChar_byte (reportText_chars c x hx)
      exact ⟨hlow, hhigh, hbar⟩) free
  have hback : c.text.map (Char.ofUInt8 ∘ fun x => UInt8.ofNat x.toNat) = c.text :=
    (List.map_congr_left fun x hx => (reportChar_byte (reportText_chars c x hx)).2.2.2).trans (List.map_id _)
  refine ⟨hplain, hreport.trans ?_⟩
  rw [Paquet.report, hpayload, List.map_map, hback]
  rfl

/-- **A report is told as it is**: the frame of a cycle whose report fits is accepted
by the dongle, whatever it decoded before, and printed by `dump_human` as one line,
of printable characters up to its end, that one call of `ReadString` takes; and
`initialize` makes of it the one packet with the address of the node, the address the
report is for and its text. -/
theorem sent_report {decode : List UInt8 → List Char} (hd : ReadsAscii decode) {c : NodeCycle} {pk : Packet}
    (h : c.Sends pk) (hfit : c.text.length ≤ 100) (pq : Paquet) :
    let received := (val (packet2paquet pk pq)).2
    (val (packet2paquet pk pq)).1 = 1 ∧
    ∃ text, dumpHuman received = text ++ [13, 10] ∧ (∀ b ∈ text, 0x20 ≤ b ∧ b ≤ 0x7E) ∧ WholeLine (text ++ [13]) ∧
      packetsOf decode (text ++ [13]) = [⟨"99000000".toList, "01000000".toList, c.text⟩] := by
  intro received
  obtain ⟨hplain, hreport⟩ := h.plain hfit
  have hval : val (packet2paquet pk pq) = (1, pk.decoded pq.data) := packet2paquet_val pk pq hplain.long
  have hreceived : received = pk.decoded pq.data := by simp only [received, hval]
  obtain ⟨hwhole, hpackets⟩ := hplain.line hd pq.data
  obtain ⟨text, hbody, hprintable⟩ := (hplain.decoded pq.data).1.dumpBody_text
  rw [hbody] at hwhole hpackets
  refine ⟨by rw [hval], text, ?_, hprintable, hwhole, hpackets.trans (congrArg (fun r => [r]) hreport)⟩
  rw [hreceived, dumpHuman_body, hbody, List.append_assoc]
  rfl

/-- The first cycle after the boot, without sensors. -/
def sampleCycle : NodeCycle where
  state := .boot { fullConfig with capa := .replicate 2 0 } false
  input := { readings := sampleReadings, rxPackets := [], freePacket := some (0, .zero) }

theorem sampleCycle_sends : sampleCycle.Sends (sampleCycle.frame .zero) := (sampleCycle.sends_iff _).mpr ⟨_, rfl, rfl⟩

theorem sampleCycle_fits : sampleCycle.text.length ≤ 100 := by decide +kernel

theorem sent_report_sample :
    let received := (val (packet2paquet (sampleCycle.frame .zero) longestReport)).2
    (val (packet2paquet (sampleCycle.frame .zero) longestReport)).1 = 1 ∧
    ∃ text, dumpHuman received = text ++ [13, 10] ∧ (∀ b ∈ text, 0x20 ≤ b ∧ b ≤ 0x7E) ∧ WholeLine (text ++ [13]) ∧
      packetsOf latin1 (text ++ [13]) = [⟨"99000000".toList, "01000000".toList, sampleCycle.text⟩] :=
  sent_report latin1_readsAscii sampleCycle_sends sampleCycle_fits longestReport

end OflMetrics
