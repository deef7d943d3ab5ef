/-
Which of the dongle's lines become packets, by when their bytes arrive.

The bridge drops what it has read when a timeout comes in the middle of a
line, and takes the piece behind it for a line; and it broadcasts the packet
whether `initialize` has filled it or not. Lines that are read well are
neither lost nor made up (`one_packet_per_line`).
-/
import OflMetrics.Bridge.SerialFacts

namespace OflMetrics

open Embed Embed.CString

/-- A line that the bridge should turn into a packet. -/
def WellFormed (l : List UInt8) : Prop := StartsRX l ∧ 3 ≤ (l.drop 4).count 0x7C

instance : DecidablePred WellFormed := fun _ => inferInstanceAs (Decidable (_ ∧ _))

/-- A line and the piece of it behind the last timeout: where the line is
well-formed, no timeout cuts it and its fields are in the string; where it is
not, the piece does not pass for one. -/
def ReadWell (r : List UInt8 × List UInt8) : Prop :=
  (WellFormed r.1 → r.2 = r.1 ∧ 3 ≤ (pastPrefix r.1).count 0x7C) ∧ (¬ WellFormed r.1 → ¬ StartsRX r.2)

instance : DecidablePred ReadWell := fun _ => inferInstanceAs (Decidable (_ ∧ _))

variable {decode : List UInt8 → List Char}

/-- A line that is read well gives its packet, or none. -/
theorem ReadWell.packets (hd : ReadsAscii decode) {r : List UInt8 × List UInt8} (h : ReadWell r) :
    packetsOf decode r.2 = if WellFormed r.1 then [packetFields decode (pastPrefix r.1)] else [] := by
  by_cases hwell : WellFormed r.1
  · obtain ⟨hwhole, hbars⟩ := h.1 hwell
    rw [hwhole, packetsOf, if_pos hwell.1, if_pos hwell, packetOf, packetInitialize_fields hd hbars]
  · rw [packetsOf, if_neg (h.2 hwell), if_neg hwell]

theorem flatMap_packetsOf (hd : ReadsAscii decode) {rs : List (List UInt8 × List UInt8)} (h : ∀ r ∈ rs, ReadWell r) :
    (rs.flatMap fun r => packetsOf decode r.2) =
      ((rs.map (·.1)).filter WellFormed).map fun l => packetFields decode (pastPrefix l) := by
  induction rs with
  | nil => rfl
  | cons r rs ih =>
    rw [List.flatMap_cons, ih fun r' hr' => h r' (List.mem_cons_of_mem _ hr'),
      (h r List.mem_cons_self).packets hd, List.map_cons, List.filter_cons]
    by_cases hwell : WellFormed r.1
    · simp only [hwell, decide_true, if_true, List.map_cons, List.singleton_append]
    · simp only [hwell, decide_false, if_false, Bool.false_eq_true, List.nil_append]

/-- **Each well-formed line becomes one packet, in order, and no other does**,
in every state of a run in which the lines are read well: so far those of the
first lines have been broadcast, and of all lines after enough turns. -/
theorem one_packet_per_line (hd : ReadsAscii decode) {ls : List (List UInt8)}
    (hls : ∀ l ∈ ls, 10 ∉ l ∧ l.length < 128) {t : SerialThread} (ht : t.state = 3)
    (harriving : bytesOf t.arriving = terminate [10] ls) (hread : ∀ r ∈ linesRead [] [] t.arriving, ReadWell r)
    (as : List PortAnswers) :
    ∃ first, first <+: ls ∧
      (t.run decode as).broadcast =
        t.broadcast ++ (first.filter WellFormed).map (fun l => packetFields decode (pastPrefix l)) ∧
      (t.arriving.length ≤ as.length → first = ls) := by
  have hfit : LinesFit ([] : List UInt8).length (bytesOf t.arriving) := harriving ▸ linesFit_terminate hls
  have hlines : (linesRead [] [] t.arriving).map (·.1) = ls := by
    rw [linesRead_lines, harriving]
    exact lines_terminate (fun l hl => isNewline_of_not_mem (hls l hl).1) rfl
  obtain ⟨rs, hfirst, hbroadcast, hall⟩ := run_listen decode ht hfit as
  refine ⟨rs.map (·.1), hlines ▸ hfirst.map _, ?_, fun hle => ?_⟩
  · rw [hbroadcast, flatMap_packetsOf hd fun r hr => hread r (hfirst.subset hr)]
  · rw [hall hle, hlines]

/-! ## Examples -/

/-- A line of `dump_human`. -/
def reportLine : List UInt8 := ascii "RX: 0A0B0C0D|FFFFFFFF|02|hi|\r"

/-- The line, and another one that a timeout cuts. -/
def reportAndOther : List SerialEvent :=
  inTime (reportLine ++ [10] ++ ascii "Command ") ++ .timeout :: inTime (ascii "too long\r" ++ [10])

theorem one_packet_per_line_report :
    ((listening reportAndOther).run latin1 (turns 80)).broadcast = [packetFields latin1 (pastPrefix reportLine)] := by
  have hwell : ∀ r ∈ linesRead [] [] reportAndOther, ReadWell r := by decide
  have hlines : ∀ l ∈ [reportLine, ascii "Command too long\r"], 10 ∉ l ∧ l.length < 128 := by decide
  have hbytes : bytesOf (listening reportAndOther).arriving = terminate [10] [reportLine, ascii "Command too long\r"] := by
    decide
  obtain ⟨first, -, hbroadcast, hall⟩ := one_packet_per_line latin1_readsAscii hlines rfl hbytes hwell (turns 80)
  rw [hbroadcast, hall (by decide)]
  rfl

/-- The line, with a timeout between two of its bytes. -/
def tornReport : List SerialEvent := inTime (reportLine.take 10) ++ .timeout :: inTime (reportLine.drop 10 ++ [10])

/-- The torn line is lost; and a line without fields gives a packet. -/
theorem torn_line_lost :
    bytesOf tornReport = terminate [10] [reportLine] ∧
      ((listening tornReport).run latin1 (turns 40)).broadcast ≠
        ([reportLine].filter WellFormed).map (fun l => packetFields latin1 (pastPrefix l)) ∧
      ((listening (inTime (ascii "RX" ++ [10]))).run latin1 (turns 40)).broadcast ≠
        ([ascii "RX"].filter WellFormed).map (fun l => packetFields latin1 (pastPrefix l)) := by
  refine ⟨by decide, fun h => ?_, fun h => ?_⟩
  · exact absurd (congrArg List.length h) (by decide +kernel)
  · exact absurd (congrArg List.length h) (by decide +kernel)

end OflMetrics
