/-
What becomes of the packets the dongle receives while the bridge listens.

Whatever the order in which plain frames come in, the dongle's interrupts print
between two turns of its loop, bytes arrive and the thread takes its turns: the
packets broadcast, and those of the lines that are not read yet, are the packets
received, in order, each once (`reports_delivered`). Each is the source, the
destination and the payload that the frame carries. An interrupt that prints
inside a line would cut it in two, and a frame that is not plain need not be read
as what it carries.
-/
import OflMetrics.Bridge.Answered
import OflMetrics.Bridge.OwnVoice

namespace OflMetrics

open Embed Embed.CString Embed.Traced

/-- A frame with a payload of printable characters but `|`. -/
structure Packet.Plain (p : Packet) : Prop where
  long : 25 ≤ p.length.toNat
  short : p.length.toNat ≤ 125
  printable : ∀ i < p.length.toNat - 25, 0x20 ≤ p.data (23 + i) ∧ p.data (23 + i) ≤ 0x7E ∧ p.data (23 + i) ≠ 0x7C

/-- What a frame says. -/
def Packet.report (p : Packet) : BridgePacket where
  srcNodeId := hexText (p.data.slice 15 4)
  dstNodeId := hexText (p.data.slice 5 4)
  msg := (p.data.slice 23 (p.length.toNat - 25)).map Char.ofUInt8

/-- A line for one call of `ReadString`. -/
structure WholeLine (l : List UInt8) : Prop where
  plain : 10 ∉ l
  short : l.length < 128

/-- Lines for one call each. -/
def WholeLines (s : List UInt8) : Prop := ∃ ls, s = terminate [10] ls ∧ ∀ l ∈ ls, WholeLine l

section

variable (decode : List UInt8 → List Char)

/-- The packets of the lines in a stream. -/
def packetsIn (s : List UInt8) : List BridgePacket := (lines IsNewline s).flatMap (packetsOf decode)

end

variable {decode : List UInt8 → List Char}

/-! ## Lines -/

theorem packetsIn_terminate {ls : List (List UInt8)} (h : ∀ l ∈ ls, WholeLine l) :
    packetsIn decode (terminate [10] ls) = ls.flatMap (packetsOf decode) := by
  rw [packetsIn, lines_terminate (fun l hl => isNewline_of_not_mem (h l hl).plain) rfl]

theorem WholeLines.nil : WholeLines [] := ⟨[], rfl, fun _ hl => absurd hl List.not_mem_nil⟩

variable (decode) in
theorem WholeLine.lines {l : List UInt8} (h : WholeLine l) : WholeLines (l ++ [10]) ∧ packetsIn decode (l ++ [10]) = packetsOf decode l := by
  have hone : ∀ l' ∈ [l], WholeLine l' := fun l' hl' => List.mem_singleton.mp hl' ▸ h
  have htext : terminate [10] [l] = l ++ [10] := List.append_nil _
  refine ⟨⟨[l], htext.symm, hone⟩, ?_⟩
  rw [← htext, packetsIn_terminate hone, List.flatMap_singleton]

variable (decode) in
/-- Lines written behind others. -/
theorem WholeLines.append {s t : List UInt8} (hs : WholeLines s) (ht : WholeLines t) :
    WholeLines (s ++ t) ∧ packetsIn decode (s ++ t) = packetsIn decode s ++ packetsIn decode t := by
  obtain ⟨ls, rfl, hls⟩ := hs
  obtain ⟨ls', rfl, hls'⟩ := ht
  have hall : ∀ l ∈ ls ++ ls', WholeLine l := fun l hl => (List.mem_append.mp hl).elim (hls l) (hls' l)
  have happend : terminate [10] (ls ++ ls') = terminate [10] ls ++ terminate [10] ls' := by
    simp only [terminate, List.map_append, List.flatten_append]
  rw [← happend]
  refine ⟨⟨ls ++ ls', rfl, hall⟩, ?_⟩
  rw [packetsIn_terminate hall, packetsIn_terminate hls, packetsIn_terminate hls', List.flatMap_append]

variable (decode) in
/-- A line that is read in front of others. -/
theorem WholeLines.pop {l s : List UInt8} (h : WholeLines (l ++ 10 :: s)) (hl : 10 ∉ l) :
    WholeLine l ∧ WholeLines s ∧ packetsIn decode (l ++ 10 :: s) = packetsOf decode l ++ packetsIn decode s := by
  have hlines : lines IsNewline (l ++ 10 :: s) = l :: lines IsNewline s := linesFrom_line (isNewline_of_not_mem hl) rfl [] s
  obtain ⟨ls, heq, hls⟩ := h
  have hwhole : lines IsNewline (l ++ 10 :: s) = ls := by
    rw [heq, lines_terminate (fun l hl => isNewline_of_not_mem (hls l hl).plain) rfl]
  cases ls with
  | nil => rw [hlines] at hwhole; cases hwhole
  | cons l' ls =>
    obtain ⟨rfl, -⟩ := List.cons.inj (hlines.symm.trans hwhole)
    rw [terminate_cons, List.append_cancel_left_eq, List.singleton_append, List.cons.injEq] at heq
    refine ⟨hls l List.mem_cons_self, ⟨ls, heq.2, fun l hl => hls l (List.mem_cons_of_mem _ hl)⟩, ?_⟩
    rw [packetsIn, hlines, List.flatMap_cons, packetsIn]

/-- The first line ends before a call has read as much as it may. -/
theorem WholeLines.newline {piece s : List UInt8} (h : WholeLines (piece ++ s)) (hpiece : 128 ≤ piece.length) : 10 ∈ piece := by
  obtain ⟨ls, heq, hls⟩ := h
  cases ls with
  | nil =>
    rw [terminate_nil, List.append_eq_nil_iff] at heq
    rw [heq.1] at hpiece
    exact absurd hpiece (by decide)
  | cons l ls =>
    rw [terminate_cons, ← List.append_assoc] at heq
    have hshort := (hls l List.mem_cons_self).short
    have hpre : l ++ [10] <+: piece := List.prefix_of_prefix_length_le ⟨_, heq.symm⟩ (List.prefix_append piece s) (by
      rw [List.length_append, List.length_singleton]
      omega)
    exact hpre.subset (List.mem_append_right l (List.mem_singleton.mpr rfl))

/-! ## What is printed for a frame -/

/-- The paquet decoded from it. -/
theorem Packet.Plain.decoded {p : Packet} (h : p.Plain) (data : Mem UInt8) :
    Printable (p.decoded data) ∧ (p.decoded data).payload = p.data.slice 23 (p.length.toNat - 25) := by
  have hlen : (p.decoded data).datalen.toNat = p.length.toNat - 25 := decoded_datalen p
  have hshort := h.short
  have hbyte (i : Nat) (hi : i < p.length.toNat - 25) : (p.decoded data).data i = p.data (23 + i) := by
    simp only [Packet.decoded, Mem.copy, Mem.drop, Nat.zero_le, true_and, Nat.zero_add, Nat.sub_zero, if_pos hi]
  refine ⟨⟨by omega, fun i hi => ?_, fun i hi hmax => ?_⟩, ?_⟩
  · rw [hlen] at hi
    rw [hbyte i hi]
    exact h.printable i hi
  · rw [hlen] at hi
    simp only [Packet.decoded, Mem.copy, Mem.fill, Nat.zero_le, true_and, Nat.zero_add, if_neg (Nat.not_lt.mpr hi),
      if_pos hmax]
  · rw [Paquet.payload, hlen]
    refine Mem.slice_congr fun i hi => ?_
    rw [Nat.zero_add, hbyte i hi]

/-- Its line is whole, and read as what it says. -/
theorem Packet.Plain.line (hd : ReadsAscii decode) {p : Packet} (h : p.Plain) (data : Mem UInt8) :
    WholeLine (dumpBody (p.decoded data)) ∧ packetsOf decode (dumpBody (p.decoded data)) = [p.report] := by
  obtain ⟨hprintable, hpayload⟩ := h.decoded data
  have hmac (off : Nat) : (p.data.load off 8).toList.take 4 = p.data.slice off 4 := by
    rw [Mem.load_toList, show 8 = 4 + 4 from rfl, Mem.slice_add, List.take_left' (Mem.length_slice _ _ _)]
  constructor
  · refine ⟨fun hmem => (hprintable.mem_dumpBody hmem).2 rfl, ?_⟩
    have hlength := hprintable.length_dumpHuman
    have hshort := hprintable.short
    rw [dumpHuman_body, List.length_append, List.length_singleton] at hlength
    omega
  · have hpast : pastPrefix (dumpBody (p.decoded data)) =
        dumpFields (p.decoded data) ++ ((p.decoded data).payload ++ ascii "|\r\n") := by
      have hdrop : (dumpHuman (p.decoded data)).drop 4 =
          dumpFields (p.decoded data) ++ ((p.decoded data).payload ++ ascii "|\r\n") := by
        rw [dumpHuman_eq, hprintable.text]
        rfl
      rw [pastPrefix, ← dumpHuman_body,
        List.takeWhile_eq_self_iff.mpr fun x hx => hprintable.ne_nul x (List.mem_of_mem_drop hx), hdrop]
    have hrx : StartsRX (dumpBody (p.decoded data)) := rfl
    rw [packetsOf, if_pos hrx, packetOf, hpast, packetInitialize_fields hd (count_dumpFields _ _),
      hprintable.packetFields hd, hpayload]
    refine congrArg (fun b => [b]) ?_
    simp only [Packet.report, Packet.decoded, hmac]

/-- A paquet as the bridge reads it. -/
def Paquet.report (pq : Paquet) : BridgePacket where
  srcNodeId := hexText (pq.smac.toList.take 4)
  dstNodeId := hexText (pq.dmac.toList.take 4)
  msg := pq.payload.map Char.ofUInt8

/-- The frame of a paquet that fits, with a printable payload. -/
theorem paquet2packet_report (pq : Paquet) (h100 : pq.datalen.toNat ≤ 100)
    (hpayload : ∀ b ∈ pq.payload, 0x20 ≤ b ∧ b ≤ 0x7E ∧ b ≠ 0x7C) (free : Packet) :
    (val (paquet2packet pq free)).2.2.Plain ∧ (val (paquet2packet pq free)).2.2.report = pq.report := by
  obtain ⟨hlen, hbytes⟩ := paquet2packet_bytes pq free h100
  have hpay : (pq.frame h100).payload.length = pq.datalen.toNat := by simp [Paquet.frame]
  rw [← hpay] at hbytes
  obtain ⟨-, hdmac, -, hsmac, hslice⟩ := Frame.fields_of_bytes hbytes
  have hmac (off : Nat) (m : Mem UInt8) : m.slice off 4 = (m.load off 8).toList.take 4 := by
    rw [Mem.load_toList, show 8 = 4 + 4 from rfl, Mem.slice_add, List.take_left' (Mem.length_slice _ _ _)]
  generalize (val (paquet2packet pq free)).2.2 = pk at hlen hdmac hsmac hslice
  have htext : pk.data.slice 23 (pk.length.toNat - 25) = pq.payload := by
    rw [hpay] at hslice
    rw [hlen, Nat.add_sub_cancel_left, hslice]
    rfl
  refine ⟨⟨by omega, by omega, fun i hi => ?_⟩, ?_⟩
  · have hin : pk.data (23 + i) ∈ pk.data.slice 23 (pk.length.toNat - 25) := by
      have hi' : i < (pk.data.slice 23 (pk.length.toNat - 25)).length := by rwa [Mem.length_slice]
      rw [← Mem.getElem_slice pk.data 23 _ i hi']
      exact List.getElem_mem hi'
    exact hpayload _ (htext ▸ hin)
  · rw [Packet.report, hmac, hmac, hsmac, hdmac, htext]
    rfl

/-! ## The link, while the bridge listens -/

/-- The dongle dumps, the bridge listens, nothing has failed, and what is not
read yet are whole lines. -/
structure Link.Listening (l : Link) : Prop where
  mode : l.dongle.monitorMode = DUMP_HUMAN
  toDongle : l.toDongle = []
  state : l.thread.state = 3
  arriving : Punctual l.thread.arriving
  unread : WholeLines l.unread

/-- The frames received in a step. -/
def LinkStep.frames : LinkStep → List Packet
  | .dongle (some b) _ _ _ | .interrupted (some b) _ _ _ _ => [b.2]
  | _ => []

/-- No other frame than a plain one is received. -/
def LinkStep.Plain (st : LinkStep) : Prop := ∀ pk ∈ st.frames, pk.Plain

/-- What the frames received say. -/
def LinkStep.reports (st : LinkStep) : List BridgePacket := st.frames.map Packet.report

section

variable (decode : List UInt8 → List Char)

/-- The packets broadcast, and those that will be of what is not read yet. -/
def Link.heard (l : Link) : List BridgePacket := l.thread.broadcast ++ packetsIn decode l.unread

variable (notice : List UInt8) {decode} {l : Link}

theorem wholeLine_hopLine (ch : UInt8) : WholeLine (hopLine ch) where
  plain hmem := by
    have htexts : (10 : UInt8) ∉ ascii "Channel hopping to ch:" ∧ (10 : UInt8) ∉ ascii "0123456789ABCDEF-" ∧
        (10 : UInt8) ∉ [(13 : UInt8)] := by decide
    rw [hopLine, List.mem_append, List.mem_append] at hmem
    rcases hmem with hmem | hmem | hmem
    · exact htexts.1 hmem
    · exact htexts.2.1 (mem_percentD hmem)
    · exact htexts.2.2 hmem
  short := by
    have hdigits : Printf.digits ch.toNat ≤ 3 := (Printf.digits_le_iff (by decide)).mpr (Nat.lt_trans ch.toNat_lt (by decide))
    have htext : (ascii "Channel hopping to ch:").length = 22 := rfl
    rw [hopLine, List.length_append, List.length_append, percentD, List.length_map, Printf.decInt_natCast, Printf.length_dec,
      htext, List.length_singleton]
    omega

variable (decode) in
/-- Whole lines, and the packets they are read as. -/
def Tells (text : List UInt8) (ps : List BridgePacket) : Prop := WholeLines text ∧ packetsIn decode text = ps

theorem tells_nil : Tells decode [] [] := ⟨.nil, rfl⟩

/-- A line of an interrupt is no packet. -/
theorem tells_other {line : List UInt8} (h : WholeLine line) (hother : ¬ StartsRX line) : Tells decode (line ++ [10]) [] := by
  obtain ⟨hwhole, hpackets⟩ := h.lines decode
  exact ⟨hwhole, hpackets.trans (if_neg hother)⟩

/-- A step that only adds to what is not read yet, and nothing fails in it. -/
structure Link.Prints (l l' : Link) (text : List UInt8) : Prop where
  same : l.Same l'
  arriving : Punctual l.thread.arriving → Punctual l'.thread.arriving
  unread : l'.unread = l.unread ++ text
  broadcast : l'.thread.broadcast = l.thread.broadcast

theorem Link.prints_nil (l : Link) : l.Prints l [] := ⟨⟨rfl, rfl, rfl, rfl⟩, id, (List.append_nil _).symm, rfl⟩

/-- What is printed behind the rest. -/
theorem Link.prints_text (dongle : Dongle) (hmode : dongle.monitorMode = l.dongle.monitorMode)
    (hbuffer : dongle.buffer = l.dongle.buffer) (text : List UInt8) :
    l.Prints { l with dongle, toBridge := l.toBridge ++ text } text :=
  ⟨⟨hmode, hbuffer, rfl, rfl⟩, id, (List.append_assoc _ _ _).symm, rfl⟩

/-- Every step but a turn of the thread prints what the frame received says, once
the dongle dumps. -/
theorem Link.step_dumping (hd : ReadsAscii decode) (hmode : l.dongle.monitorMode = DUMP_HUMAN) (hto : l.toDongle = [])
    (hopen : l.thread.state ≠ 0) {st : LinkStep} (hst : l.Calm st) (hplain : st.Plain)
    (hno : ∀ openRet accepted, st ≠ .thread openRet accepted) :
    ∃ text, Tells decode text st.reports ∧ l.Prints (l.step decode notice st) text := by
  cases st with
  | dongle rx canGet env info =>
    rcases Link.dongleTurn_cases notice rx canGet env info l with hturn | ⟨c, cs, hcons, -⟩
    · rw [Link.step, hturn]
      have hprints := l.prints_text (val (receivePacket l.dongle rx)) (receivePacket_monitorMode _ _) (receivePacket_buffer _ _)
        (serialOutput notice info (log (receivePacket l.dongle rx)))
      cases rx with
      | none => exact ⟨[], tells_nil, hprints⟩
      | some b =>
        have hplain : b.2.Plain := hplain b.2 List.mem_cons_self
        have htext : serialOutput notice info (log (receivePacket l.dongle (some b))) =
            dumpBody (b.2.decoded l.dongle.pk.data) ++ [10] := by
          rw [← dumpHuman_body]
          simp only [receivePacket, log_bind, log_tell, log_pure, if_pos hmode, packet2paquet_val b.2 _ hplain.long]
          exact List.append_nil _
        obtain ⟨hwhole, hpackets⟩ := hplain.line hd l.dongle.pk.data
        obtain ⟨hlines, hread⟩ := hwhole.lines decode
        rw [htext] at hprints ⊢
        exact ⟨_, ⟨hlines, hread.trans hpackets⟩, hprints⟩
    · rw [hto] at hcons
      cases hcons
  | tmr0 =>
    obtain ⟨hmode', hbuffer'⟩ := tmr0Isr_same l.dongle
    have hprints := l.prints_text (val (tmr0Isr l.dongle)) hmode' hbuffer'
      (serialOutput notice ⟨0, 0⟩ (log (tmr0Isr l.dongle)))
    refine ⟨_, ?_, hprints⟩
    rcases tmr0Isr_text notice ⟨0, 0⟩ l.dongle with hnone | ⟨ch, htext⟩
    · rw [hnone]
      exact tells_nil
    · rw [htext]
      exact tells_other (wholeLine_hopLine ch) (Ne.symm (by decide : ascii "RX" ≠ ascii "Ch"))
  | kbi4 =>
    exact ⟨ascii "O" ++ [10], tells_other ⟨by decide, by decide⟩ (by decide), l.prints_text l.dongle rfl rfl _⟩
  | kbi7 =>
    exact ⟨ascii "N" ++ [10], tells_other ⟨by decide, by decide⟩ (by decide), l.prints_text l.dongle rfl rfl _⟩
  | deliver late =>
    cases hst
    obtain ⟨hsame, hunread⟩ := l.deliver_same false
    rw [Link.step, if_neg hopen]
    refine ⟨[], tells_nil, hsame, Link.deliver_punctual, by rw [hunread, List.append_nil], ?_⟩
    rw [Link.deliver]
    cases l.toBridge <;> rfl
  | lose =>
    rw [Link.step, if_neg hopen]
    exact ⟨[], tells_nil, l.prints_nil⟩
  | timeout =>
    obtain ⟨hsame, hunread⟩ := l.arrive_same (e := .timeout) rfl
    exact ⟨[], tells_nil, hsame, fun h => h.timeout hst, hunread.trans (List.append_nil _).symm, rfl⟩
  | interrupted | drop | failed => cases hst
  | thread openRet accepted => exact absurd rfl (hno openRet accepted)

variable (decode) in
theorem Link.Listening.threadTurn (h : l.Listening) (openRet : Int) (accepted : Nat) :
    (l.threadTurn decode openRet accepted).Listening ∧
      (l.threadTurn decode openRet accepted).heard decode = l.heard decode := by
  have ⟨hmode, hto, hstate, ⟨n, s, harriving⟩, hunread⟩ := h
  have hne : l.thread.state ≠ 1 := by omega
  rcases Link.threadTurn_reads decode hne openRet accepted with hsame | ⟨a, t, hturn, hnext⟩
  · rw [hsame]
    exact ⟨h, rfl⟩
  · rw [Link.unread, harriving, bytesOf_afterTimeouts] at hunread
    rw [hnext]
    obtain _ | n := n
    swap
    · -- The call times out, and nothing is read.
      obtain ⟨rxBuf, hwaits⟩ := turn_timeout decode (.inr hstate) harriving a
      obtain rfl := Option.some.inj (hturn.symm.trans hwaits)
      refine ⟨⟨hmode, hto, hstate, ⟨n, s, rfl⟩, by rwa [Link.unread, bytesOf_afterTimeouts]⟩, ?_⟩
      simp only [Link.heard, Link.unread, bytesOf_afterTimeouts, harriving]
    have hevents : l.thread.arriving = inTime s := harriving
    rw [SerialThread.turn, hstate] at hturn
    obtain ⟨⟨ret, m, es⟩, hread, rfl⟩ := Option.map_eq_some_iff.mp hturn
    rw [SerialThread.readString, hevents] at hread
    rcases readString_inTime_cases (l.thread.rxBuf.fill 0 0 BUFFER_SIZE) s with
      ⟨hnone, -⟩ | ⟨ret', m', piece, rest, rfl, hpiece, hlen, -⟩ | ⟨line, m', rest, rfl, hline, hlen, hsome, hstored⟩
    · rw [hnone] at hread
      cases hread
    · rw [List.append_assoc] at hunread
      exact absurd (hunread.newline (Nat.le_of_eq hlen.symm)) hpiece
    · obtain ⟨rfl, rfl, rfl⟩ : (line.length : Int) + 1 = ret ∧ m' = m ∧ inTime rest = es := by
        rw [hsome] at hread
        cases hread
        exact ⟨rfl, rfl, rfl⟩
      have hsplit : line ++ 10 :: rest ++ l.toBridge = line ++ 10 :: (rest ++ l.toBridge) := by
        rw [List.append_assoc, List.cons_append]
      rw [hsplit] at hunread
      obtain ⟨-, hrest, hpackets⟩ := hunread.pop decode hline
      have hzero : ∀ i < BUFFER_SIZE, l.thread.rxBuf.fill 0 0 BUFFER_SIZE i = 0 := fun i hi => by
        rw [Mem.fill, if_pos (by omega)]
      refine ⟨⟨hmode, hto, rfl, ⟨0, rest, rfl⟩, by rwa [Link.unread, bytesOf_inTime]⟩, ?_⟩
      simp only [Link.heard, Link.unread, bytesOf_inTime, hevents, hsplit, hpackets, heard_line decode hstored hzero hlen,
        List.append_assoc]

theorem Link.Listening.step (hd : ReadsAscii decode) (h : l.Listening) {st : LinkStep} (hst : l.Calm st) (hplain : st.Plain) :
    (l.step decode notice st).Listening ∧ (l.step decode notice st).heard decode = l.heard decode ++ st.reports := by
  by_cases hthread : ∃ openRet accepted, st = .thread openRet accepted
  · obtain ⟨openRet, accepted, rfl⟩ := hthread
    obtain ⟨hlistening, hheard⟩ := h.threadTurn decode openRet accepted
    exact ⟨hlistening, hheard.trans (List.append_nil _).symm⟩
  · have hopen : l.thread.state ≠ 0 := by rw [h.state]; decide
    obtain ⟨text, ⟨hlines, hpackets⟩, hsame, harriving, hunread, hbroadcast⟩ :=
      Link.step_dumping notice hd h.mode h.toDongle hopen hst hplain fun openRet accepted he =>
        hthread ⟨openRet, accepted, he⟩
    obtain ⟨hwhole, hall⟩ := h.unread.append decode hlines
    rw [← hunread] at hwhole hall
    refine ⟨⟨hsame.mode.trans h.mode, hsame.toDongle.trans h.toDongle, hsame.state.trans h.state, harriving h.arriving,
      hwhole⟩, ?_⟩
    rw [Link.heard, hall, hbroadcast, hpackets, ← List.append_assoc, Link.heard]

/-- After any such steps. -/
theorem Link.Listening.run (hd : ReadsAscii decode) {sts : List LinkStep} :
    ∀ {l : Link}, l.Listening → Guarded (Link.step decode notice) (fun l st => l.Calm st ∧ st.Plain) l sts →
      (Embed.run (Link.step decode notice) l sts).Listening ∧
        (Embed.run (Link.step decode notice) l sts).heard decode = l.heard decode ++ sts.flatMap LinkStep.reports := by
  induction sts with
  | nil => exact fun h _ => ⟨h, (List.append_nil _).symm⟩
  | cons st sts ih =>
    intro l h hsts
    obtain ⟨⟨hcalm, hplain⟩, hsts⟩ := hsts
    obtain ⟨hnext, hheard⟩ := h.step notice hd hcalm hplain
    obtain ⟨hlistening, hrest⟩ := ih hnext hsts
    refine ⟨hlistening, ?_⟩
    rw [List.flatMap_cons, ← List.append_assoc, ← hheard]
    exact hrest

/-- **No packet is lost, doubled or overtaken** while the bridge listens: after any
steps in which nothing fails and only plain frames are received, with the interrupts
between the turns, what it has broadcast and what it will of the lines on their way
is what it had before and what the frames received since say, in order; and turns
enough broadcast all of it once all has arrived. -/
theorem reports_delivered (hd : ReadsAscii decode) (h : l.Listening) {sts : List LinkStep}
    (hsts : Guarded (Link.step decode notice) (fun l st => l.Calm st ∧ st.Plain) l sts) :
    let l' := run (Link.step decode notice) l sts
    l'.heard decode = l.heard decode ++ sts.flatMap LinkStep.reports ∧
      (l'.toBridge = [] → ∀ as : List PortAnswers, l'.thread.arriving.length ≤ as.length →
        (l'.thread.run decode as).broadcast = l.heard decode ++ sts.flatMap LinkStep.reports) := by
  intro l'
  obtain ⟨hlistening, hheard⟩ := h.run notice hd hsts
  refine ⟨hheard, fun hto as has => ?_⟩
  obtain ⟨n, s, harriving⟩ := hlistening.arriving
  obtain ⟨ls, hls, hwhole⟩ := hlistening.unread
  rw [Link.unread, hto, List.append_nil, harriving, bytesOf_afterTimeouts] at hls
  have hfit : LinesFit 0 s := by
    rw [hls]
    exact linesFit_terminate fun line hline => ⟨(hwhole line hline).plain, (hwhole line hline).short⟩
  rw [run_afterTimeouts decode hlistening.state harriving hfit has, ← hheard, Link.heard, Link.unread, hto, List.append_nil,
    harriving, bytesOf_afterTimeouts, packetsIn]

end

/-- A frame with the payload `A`. -/
def plainPacket : Packet := { Packet.zero with length := 26, data := fun _ => 0x41 }

theorem plainPacket_plain : plainPacket.Plain := ⟨by decide, by decide, fun _ _ => (by decide : (0x20 : UInt8) ≤ 0x41 ∧ (0x41 : UInt8) ≤ 0x7E ∧ (0x41 : UInt8) ≠ 0x7C)⟩

/-- A bridge that listens. -/
def listeningLink : Link where
  dongle := { sampleDongle with monitorMode := DUMP_HUMAN }
  thread := { SerialThread.new fun _ => 0 with state := 3 }
  toDongle := []
  toBridge := []

/-- A frame comes in, and what is printed of it arrives. -/
def frameSteps (pk : Packet) (n : Nat) : List LinkStep :=
  .dongle (some (0, pk)) false noBuffer ⟨0, 0⟩ :: List.replicate n (.deliver false)

theorem listeningLink_listening : listeningLink.Listening := ⟨rfl, rfl, rfl, ⟨0, [], rfl⟩, WholeLines.nil⟩

theorem frameSteps_fine {pk : Packet} (n : Nat) {st : LinkStep} (hst : st ∈ frameSteps pk n) (l : Link) :
    l.Fine st ∧ ∀ pk' ∈ st.frames, pk' = pk := by
  rw [frameSteps, List.mem_cons] at hst
  rcases hst with rfl | hst
  · exact ⟨⟨trivial, trivial⟩, fun pk' hpk' => List.mem_singleton.mp hpk'⟩
  · rw [List.eq_of_mem_replicate hst]
    exact ⟨⟨rfl, trivial⟩, fun pk' hpk' => absurd hpk' List.not_mem_nil⟩

theorem reports_delivered_sample :
    let sts := .timeout :: frameSteps plainPacket 60
    let l' := run (Link.step latin1 []) listeningLink sts
    l'.heard latin1 = listeningLink.heard latin1 ++ sts.flatMap LinkStep.reports ∧
      (l'.toBridge = [] → ∀ as : List PortAnswers, l'.thread.arriving.length ≤ as.length →
        (l'.thread.run latin1 as).broadcast = listeningLink.heard latin1 ++ sts.flatMap LinkStep.reports) := by
  refine reports_delivered [] latin1_readsAscii listeningLink_listening ⟨⟨rfl, fun pk hpk => absurd hpk List.not_mem_nil⟩, ?_⟩
  refine .of_forall fun st hst l => ?_
  obtain ⟨hfine, hpk⟩ := frameSteps_fine 60 hst l
  exact ⟨hfine.1, fun pk' hpk' => hpk pk' hpk' ▸ plainPacket_plain⟩

/-- With an interrupt inside its line, the payload `A` is not heard. -/
example :
    ((run (Link.step latin1 []) listeningLink
      [.interrupted (some (0, plainPacket)) false noBuffer ⟨0, 0⟩ [(4, .kbi4)]]).heard latin1).map (·.msg) = [[]] := by
  decide +kernel

end OflMetrics
