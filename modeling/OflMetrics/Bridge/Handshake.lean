/-
The handshake of the bridge with the dongle: the bridge sends `:dump_human`,
and listens once it has read the answer.

As long as no byte is lost on the open line, a bridge that listens has a dongle
that dumps (`listening_dumps`): no other output of the dongle has the text of
the answer in one line. The echo of the command has none of its letters, the
dump of a packet in hexadecimal, which shows what is received, has sixteen
characters of it in a line, when the answer has eighteen, and what an interrupt
prints ends a line. Bytes lost between two of the dump's lines could join them.
-/
import OflMetrics.Bridge.Link
import OflMetrics.Bridge.SerialFacts

namespace OflMetrics

open Embed Embed.CString Embed.Traced

/-- What the bridge looks for in a line. -/
def answer : List UInt8 := ascii "OK dump_human mode"

/-- The command, without its line feed. -/
def question : List UInt8 := ascii ":dump_human"

/-- Output without an answer, in which no answer is begun. -/
abbrev NoAnswer (s : List UInt8) : Prop := Lacks 10 0x4F (ascii "K dump_human mode") s

theorem NoAnswer.append {s t : List UInt8} (hs : NoAnswer s) (ht : NoAnswer t) : NoAnswer (s ++ t) :=
  Lacks.append (by decide) hs ht

/-- A line with less than an answer in it. -/
theorem NoAnswer.line {l : List UInt8} (h : ¬ answer <:+: l) : NoAnswer (l ++ [10]) := Lacks.line (by decide) h

/-! ## What the dongle prints -/

section

variable (notice : List UInt8) (info : RxInfo)

/-- A row of a dump is too short. -/
theorem noAnswer_rowText {bs : List UInt8} (h : bs.length ≤ PER_ROW) : NoAnswer (crlfLine (rowText bs)) := by
  have hcolumns : (0x4F : UInt8) ∉ ascii "~ " ++ cells bs ++ List.replicate (3 * (PER_ROW - bs.length)) 0x20 := by
    intro hmem
    simp only [List.mem_append] at hmem
    rcases hmem with (hmem | hmem) | hmem
    · revert hmem
      decide
    · obtain ⟨b, -, hb⟩ := List.mem_flatMap.mp hmem
      have hdigits : (0x4F : UInt8) ∉ ascii "0123456789abcdef" ∧ (0x4F : UInt8) ∉ ascii " " := by decide
      cases List.mem_append.mp hb with
      | inl hb => exact hdigits.1 (mem_percent02x hb)
      | inr hb => exact hdigits.2 hb
    · exact absurd (List.eq_of_mem_replicate hmem) (by decide)
  have hline : crlfLine (rowText bs) = rowText bs ++ [13] ++ [10] := (List.append_assoc (rowText bs) [13] [10]).symm
  rw [hline]
  refine .line fun hw => ?_
  rw [rowText, List.append_assoc] at hw
  have hbehind : answer <:+: bs.map shownChar ++ [13] := infix_of_append hcolumns hw
  have hlen := hbehind.length_le
  rw [List.length_append, List.length_map, List.length_singleton] at hlen
  have hmost : answer.length ≤ PER_ROW + 1 := Nat.le_trans hlen (Nat.succ_le_succ h)
  exact absurd hmost (by decide)

theorem noAnswer_dumpHexText (p : Packet) (pk : Paquet) : NoAnswer (dumpHexText p info pk) := by
  rw [dumpHexText_eq, terminate]
  refine Lacks.flatten (by decide) fun s hs => ?_
  obtain ⟨l, hl, rfl⟩ := List.mem_map.mp hs
  cases List.mem_cons.mp hl with
  | inl htitle =>
    subst htitle
    refine .of_not_mem fun hmem => ?_
    cases List.mem_append.mp hmem with
    | inl hmem => exact (titleChars_plain _ (mem_dumpHexTitle p hmem)).2.2 rfl
    | inr hmem => exact absurd hmem (by decide)
  | inr hrow =>
    obtain ⟨r, -, rfl⟩ := List.mem_map.mp hrow
    exact noAnswer_rowText (length_rowBytes_le p r)

/-- A dongle that does not dump in readable form prints no answer on its own. -/
theorem noAnswer_receivePacket {s : Dongle} (hs : s.monitorMode ≠ DUMP_HUMAN) (rx : Option (Nat × Packet)) :
    NoAnswer (serialOutput notice info (log (receivePacket s rx))) := by
  cases rx with
  | none => exact .nil
  | some b =>
    simp only [receivePacket, if_neg hs, log_bind, log_tell, log_pure, List.append_nil, serialOutput_append]
    refine .append ?_ .nil
    split
    · simpa [serialOutput, DongleEvent.serial] using noAnswer_dumpHexText info b.2 _
    · exact .nil

/-- The line of a hop, without its line feed. -/
def hopLine (ch : UInt8) : List UInt8 := ascii "Channel hopping to ch:" ++ (percentD ch.toNat ++ [13])

/-- What `tmr0_isr` prints. -/
theorem tmr0Isr_text (s : Dongle) : serialOutput notice info (log (tmr0Isr s)) = [] ∨
    ∃ ch, serialOutput notice info (log (tmr0Isr s)) = hopLine ch ++ [10] := by
  have hlog : log (tmr0Isr s) = log (hop { s with cntr := s.cntr + 1, clock := s.clock.count }) := List.append_nil _
  rw [hlog, hop]
  split
  · have hend : ascii "\r\n" = [13] ++ [10] := rfl
    refine .inr ⟨nextChan s.curChan, ?_⟩
    simp only [log_bind, log_tell, log_pure, printf, serialOutput, DongleEvent.serial, List.flatMap_cons, List.flatMap_nil,
      List.flatten_cons, List.flatten_nil, List.cons_append, List.nil_append, List.append_nil, hopLine, hend,
      List.append_assoc]
  · exact .inl rfl

theorem noAnswer_hop (s : Dongle) : NoAnswer (serialOutput notice info (log (tmr0Isr s))) := by
  rcases tmr0Isr_text notice info s with hnone | ⟨ch, hline⟩
  · rw [hnone]
    exact .nil
  · have htexts : (0x4F : UInt8) ∉ ascii "Channel hopping to ch:" ∧ (0x4F : UInt8) ∉ ascii "0123456789ABCDEF-" ∧
        (0x4F : UInt8) ∉ [(13 : UInt8)] := by decide
    rw [hline]
    refine .line fun hanswer => ?_
    have hmem := hanswer.subset (List.mem_cons_self (a := (0x4F : UInt8)))
    rw [hopLine, List.mem_append, List.mem_append] at hmem
    rcases hmem with hmem | hmem | hmem
    · exact htexts.1 hmem
    · exact htexts.2.1 (mem_percentD hmem)
    · exact htexts.2.2 hmem

end

/-! ## The dongle, as the command comes in -/

/-- Of the letters of the command, no other command can be put together. -/
theorem parseCmd_question (monitorMode : UInt8) {l : List UInt8} (hl : ∀ c ∈ l, c ∈ question) :
    parseCmd monitorMode l = .stopDump ∨ parseCmd monitorMode l = .dumpHuman ∨ parseCmd monitorMode l = .unknown := by
  have hother {name : List UInt8} (c : UInt8) (hc : c ∈ name) (hq : c ∉ question) : ¬ name <:+: l :=
    fun h => hq (hl c (h.subset hc))
  have hhelp : ¬ ascii "?" <+: l := fun h => hother 0x3F (by decide) (by decide) h.isInfix
  have hhex : ¬ ascii ":dump_hex" <:+: l := hother 0x65 (by decide) (by decide)
  have hchannel : ¬ ascii ":channel " <:+: l := hother 0x63 (by decide) (by decide)
  have hchanhop : ¬ ascii ":chanhop " <:+: l := hother 0x63 (by decide) (by decide)
  have hxtea : ¬ ascii ":selftest_xtea" <:+: l := hother 0x73 (by decide) (by decide)
  have hconfig : ¬ ascii ":show_config" <:+: l := hother 0x73 (by decide) (by decide)
  have hsend : ¬ ascii ":send " <:+: l := hother 0x73 (by decide) (by decide)
  have hinfo : ¬ ascii ":info" <:+: l := hother 0x69 (by decide) (by decide)
  simp only [parseCmd, hhelp, hhex, hchannel, hchanhop, hxtea, hconfig, hsend, hinfo, false_and, if_false]
  split
  · exact .inl rfl
  · split
    · exact .inr (.inl rfl)
    · exact .inr (.inr rfl)

/-- The characters that came of the command, in the buffer. -/
def HoldsQuestion (b : CommandBuffer) : Prop := ∃ l, b.Holds l ∧ ∀ c ∈ l, c ∈ question

theorem question_plain : ∀ c ∈ question, c ≠ 0 ∧ c ≠ 10 ∧ c ≠ 13 ∧ c ≠ 0x4F := by decide +kernel

section

variable (notice : List UInt8) (info : RxInfo) {s : Dongle}

/-- A letter of the command is echoed, or lost. -/
theorem receiveChar_letter (hs : s.monitorMode ≠ DUMP_HUMAN) (hb : HoldsQuestion s.buffer) {c : UInt8}
    (hc : c ∈ question) (env : SendEnv) :
    let r := receiveChar s (some (c, env))
    (val r).monitorMode ≠ DUMP_HUMAN ∧ HoldsQuestion (val r).buffer ∧ NoAnswer (serialOutput notice info (log r)) := by
  obtain ⟨l, hholds, hl⟩ := hb
  obtain ⟨-, hlf, hcr, ho⟩ := question_plain c hc
  have hreceive := hholds.receive (fun x hx => (question_plain x (hl x hx)).1) c
  rw [if_neg (not_or.mpr ⟨hcr, hlf⟩)] at hreceive
  simp only [receiveChar, hreceive]
  by_cases hfull : l.length = CMD_MAXLEN
  · rw [if_pos hfull]
    refine ⟨hs, ⟨[], hholds.clear, fun x hx => absurd hx List.not_mem_nil⟩, ?_⟩
    exact NoAnswer.line (l := ascii "Command too long\r") (by decide)
  · rw [if_neg hfull]
    have hfits := hholds.fits
    refine ⟨hs, ⟨l ++ [c], hholds.append (by omega) c, fun x hx => ?_⟩, ?_⟩
    · cases List.mem_append.mp hx with
      | inl hx => exact hl x hx
      | inr hx => exact List.mem_singleton.mp hx ▸ hc
    · refine .of_not_mem fun hmem => ?_
      rw [show serialOutput notice info _ = [c] from rfl] at hmem
      exact ho (List.mem_singleton.mp hmem).symm

/-- At the end of the command, the dongle dumps in readable form, or it has
printed no answer. -/
theorem receiveChar_newline (hs : s.monitorMode ≠ DUMP_HUMAN) (hb : HoldsQuestion s.buffer) (env : SendEnv) :
    let r := receiveChar s (some (10, env))
    (val r).monitorMode = DUMP_HUMAN ∨
      (val r).monitorMode ≠ DUMP_HUMAN ∧ NoAnswer (serialOutput notice info (log r)) := by
  obtain ⟨l, hholds, hl⟩ := hb
  have hreceive := hholds.receive (fun x hx => (question_plain x (hl x hx)).1) 10
  rw [if_pos (show (10 : UInt8) = 0x0D ∨ (10 : UInt8) = 0x0A from .inr rfl)] at hreceive
  simp only [receiveChar, hreceive]
  by_cases hfull : l.length = CMD_MAXLEN
  · rw [if_pos hfull]
    exact .inr ⟨hs, NoAnswer.line (l := ascii "Command too long\r") (by decide)⟩
  · rw [if_neg hfull]
    have hend : NoAnswer (ascii "\r\n") := NoAnswer.line (l := ascii "\r") (by decide)
    rcases parseCmd_question s.monitorMode hl with hparse | hparse | hparse
    · refine .inr ⟨?_, ?_⟩
      · simp only [val_bind, processCmd, hparse]
        exact (by decide : (0 : UInt8) ≠ DUMP_HUMAN)
      · simp only [log_bind, processCmd, hparse]
        exact hend.append (NoAnswer.line (l := ascii "packet-dump stopped.\r") (by decide))
    · simp only [val_bind, processCmd, hparse]
      exact .inl rfl
    · refine .inr ⟨?_, ?_⟩
      · simp only [val_bind, processCmd, hparse]
        exact hs
      · simp only [log_bind, processCmd, hparse]
        exact hend.append (NoAnswer.line (l := ascii "ERROR: Unknown command\r") (by decide))

end

/-! ## What the bridge reads -/

/-- `m'` holds `piece` from `n` on, as a string; what is before it is as in `m`. -/
structure Took (m m' : Mem UInt8) (n : Nat) (piece : List UInt8) : Prop where
  fits : n + piece.length ≤ 128
  text : m'.slice 0 (n + piece.length) = m.slice 0 n ++ piece
  nul : m' (n + piece.length) = 0

section

variable {m m' : Mem UInt8} {n : Nat}

theorem Took.nil (hn : n ≤ 128) (hzero : m n = 0) : Took m m n [] := ⟨hn, (List.append_nil _).symm, hzero⟩

theorem Took.ended (hn : n ≤ 128) : Took m (Function.update m n 0) n [] where
  fits := hn
  text := by rw [List.append_nil, List.length_nil, Nat.add_zero, Mem.slice_update_other (.inr (by omega))]
  nul := Function.update_self ..

theorem Took.cons {c : UInt8} {piece : List UInt8} (h : Took (Function.update m n c) m' (n + 1) piece) :
    Took m m' n (c :: piece) := by
  have hlen : n + (c :: piece).length = n + 1 + piece.length := by rw [List.length_cons]; omega
  have hslice : Mem.slice (Function.update m n c) 0 (n + 1) = m.slice 0 n ++ [c] := by
    rw [Mem.slice_add, Mem.slice_update_other (.inr (by omega)), Mem.slice_succ, Mem.slice_zero, Nat.zero_add,
      Function.update_self]
  refine ⟨by rw [hlen]; exact h.fits, ?_, by rw [hlen]; exact h.nul⟩
  rw [hlen, h.text, hslice, List.append_assoc, List.singleton_append]

/-- What is in the memory, as a string. -/
theorem Took.cstr {piece : List UInt8} (h : Took m m' 0 piece) : m'.cstr 0 0 BUFFER_SIZE <+: piece := by
  have hfits := h.fits
  have htext := h.text
  rw [Nat.zero_add] at hfits
  rw [Nat.zero_add, Mem.slice_zero, List.nil_append] at htext
  rw [Mem.cstr_of_nul (Nat.lt_of_le_of_lt hfits (by decide)) h.nul, htext]
  exact List.takeWhile_prefix _

/-- A call of `ReadString` takes a piece of what arrives. -/
theorem readString_piece {es es' : List SerialEvent} {ret : Int} (hn : n ≤ 128)
    (hzero : ∀ i, n ≤ i → i < BUFFER_SIZE → m i = 0) (h : readString 10 128 m n es = some (ret, m', es')) :
    ∃ piece, bytesOf es = piece ++ bytesOf es' ∧ Took m m' n piece := by
  have hnul : m n = 0 := hzero n (Nat.le_refl n) (Nat.lt_of_le_of_lt hn (by decide))
  induction es generalizing m n with
  | nil =>
    unfold readString at h
    split at h
    · cases h
    · cases h
      exact ⟨[], rfl, .nil hn hnul⟩
  | cons e es ih =>
    unfold readString at h
    split at h
    · next hlt =>
      cases e with
      | timeout =>
        cases h
        exact ⟨[], rfl, .ended hn⟩
      | failed =>
        cases h
        exact ⟨[], rfl, .nil hn hnul⟩
      | byte c late =>
        have hbytes : bytesOf (.byte c late :: es) = c :: bytesOf es := rfl
        rw [hbytes]
        simp only at h
        split at h
        · cases h
          exact ⟨[c], rfl, .cons (.ended hlt)⟩
        · split at h
          · cases h
            exact ⟨[c], rfl, .cons (.ended hlt)⟩
          · have hzero' : ∀ i, n + 1 ≤ i → i < BUFFER_SIZE → Function.update m n c i = 0 := fun i hi hmax => by
              rw [Function.update_of_ne (by omega)]
              exact hzero i (by omega) hmax
            obtain ⟨piece, hpiece, htook⟩ := ih hlt hzero' h
              (hzero' (n + 1) (Nat.le_refl _) (Nat.lt_of_le_of_lt hlt (by decide)))
            exact ⟨c :: piece, by rw [hpiece, List.cons_append], htook.cons⟩
    · cases h
      exact ⟨[], rfl, .nil hn hnul⟩

end

section

variable (decode : List UInt8 → List Char) {t t' : SerialThread} {a : PortAnswers}

/-- A turn that waits for the answer stays, or has read it in what it took. -/
theorem turn_wait (ht : t.state = 2) (h : t.turn decode a = some t') :
    ∃ piece, bytesOf t.arriving = piece ++ bytesOf t'.arriving ∧
      (t'.state = 2 ∨ t'.state = 3 ∧ answer <:+: piece) := by
  rw [SerialThread.turn, ht] at h
  obtain ⟨⟨ret, rxBuf, arriving⟩, hread, rfl⟩ := Option.map_eq_some_iff.mp h
  have hzero : ∀ i, 0 ≤ i → i < BUFFER_SIZE → t.rxBuf.fill 0 0 BUFFER_SIZE i = 0 := fun i _ hi => by
    rw [Mem.fill, if_pos (by omega)]
  obtain ⟨piece, hpiece, htook⟩ := readString_piece (Nat.zero_le _) hzero hread
  refine ⟨piece, hpiece, ?_⟩
  by_cases hok : ret > 0 ∧ ascii "OK dump_human mode" <:+: rxBuf.cstr 0 0 BUFFER_SIZE
  · exact .inr ⟨if_pos hok, hok.2.trans htook.cstr.isInfix⟩
  · exact .inl (if_neg hok)

theorem turn_listening (ht : t.state = 3) (h : t.turn decode a = some t') : t'.state = 3 := by
  rw [SerialThread.turn, ht] at h
  obtain ⟨_, -, rfl⟩ := Option.map_eq_some_iff.mp h
  rfl

end

/-! ## The whole -/

/-- What the bridge has not read yet. -/
def Link.unread (l : Link) : List UInt8 := bytesOf l.thread.arriving ++ l.toBridge

/-- The dongle has not been asked, or the end of the question is on its way. -/
structure Link.Asking (l : Link) : Prop where
  mode : l.dongle.monitorMode ≠ DUMP_HUMAN
  buffer : HoldsQuestion l.dongle.buffer
  unread : NoAnswer l.unread
  asking : l.thread.state ≤ 1 ∧ (∀ c ∈ l.toDongle, c ∈ question) ∨
    l.thread.state = 2 ∧ ∃ cs, l.toDongle = cs ++ [10] ∧ ∀ c ∈ cs, c ∈ question

/-- The dongle dumps, or it never will. -/
structure Link.Asked (l : Link) : Prop where
  toDongle : l.toDongle = []
  waits : l.thread.state = 2 ∨ l.thread.state = 3
  answers : l.dongle.monitorMode = DUMP_HUMAN ∨
    l.dongle.monitorMode ≠ DUMP_HUMAN ∧ l.thread.state = 2 ∧ NoAnswer l.unread

section

variable (decode : List UInt8 → List Char) (notice : List UInt8) {l : Link}

theorem Link.Starts.asking (h : l.Starts) (hmode : l.dongle.monitorMode ≠ DUMP_HUMAN) : l.Asking := by
  obtain ⟨rxBuf, hthread⟩ := h.thread
  refine ⟨hmode, ⟨[], h.buffer, fun c hc => absurd hc List.not_mem_nil⟩, ?_, .inl ⟨?_, ?_⟩⟩
  · rw [Link.unread, hthread, h.toBridge]
    exact .nil
  · rw [hthread]
    exact Nat.zero_le 1
  · rw [h.toDongle]
    exact fun c hc => absurd hc List.not_mem_nil

theorem receivePacket_monitorMode (s : Dongle) (rx : Option (Nat × Packet)) :
    (val (receivePacket s rx)).monitorMode = s.monitorMode := by
  rw [receivePacket_val]
  cases rx <;> rfl

section

variable (rx : Option (Nat × Packet)) (canGet : Bool) (env : SendEnv) (info : RxInfo)

/-- A turn of the dongle: it takes a byte or not. -/
theorem Link.dongleTurn_cases (l : Link) :
    let s := val (receivePacket l.dongle rx)
    let text := serialOutput notice info (log (receivePacket l.dongle rx))
    l.dongleTurn notice rx canGet env info = { l with dongle := s, toBridge := l.toBridge ++ text } ∨
      ∃ c cs, l.toDongle = c :: cs ∧ l.dongleTurn notice rx canGet env info =
        { l with
          dongle := val (receiveChar s (some (c, env)))
          toDongle := cs
          toBridge := l.toBridge ++ (text ++ serialOutput notice info (log (receiveChar s (some (c, env))))) } := by
  have hprinted (i : LoopInput) : serialOutput notice info (log (dongleLoop l.dongle i)) =
      serialOutput notice info (log (receivePacket l.dongle i.rxPacket)) ++
        serialOutput notice info (log (receiveChar (val (receivePacket l.dongle i.rxPacket)) i.serial)) := by
    rw [dongleLoop_log, ← serialOutput_append]
    rfl
  simp only [Link.dongleTurn, Link.interruptedTurn, printedBetween, hprinted, dongleLoop_val]
  cases canGet with
  | false => exact .inl (by simp [receiveChar, serialOutput])
  | true =>
    cases hto : l.toDongle with
    | nil => exact .inl (by simp [receiveChar, serialOutput])
    | cons c cs => exact .inr ⟨c, cs, rfl, rfl⟩

theorem Link.Asking.dongleTurn (h : l.Asking) :
    (l.dongleTurn notice rx canGet env info).Asking ∨ (l.dongleTurn notice rx canGet env info).Asked := by
  obtain ⟨hmode, hbuffer, hunread, hasking⟩ := h
  have hmode' : (val (receivePacket l.dongle rx)).monitorMode ≠ DUMP_HUMAN := by
    rwa [receivePacket_monitorMode]
  have hbuffer' : HoldsQuestion (val (receivePacket l.dongle rx)).buffer := by
    rwa [receivePacket_buffer]
  have hpacket := hunread.append (noAnswer_receivePacket notice info hmode rx)
  rcases Link.dongleTurn_cases notice rx canGet env info l with hturn | ⟨c, cs, hto, hturn⟩
  · rw [hturn]
    refine .inl ⟨hmode', hbuffer', ?_, hasking⟩
    rwa [Link.unread, ← List.append_assoc]
  · -- A letter of the question leaves the rest of it.
    have hletter (hc : c ∈ question) (hrest : l.thread.state ≤ 1 ∧ (∀ c ∈ cs, c ∈ question) ∨
        l.thread.state = 2 ∧ ∃ cs', cs = cs' ++ [10] ∧ ∀ c ∈ cs', c ∈ question) :
        (l.dongleTurn notice rx canGet env info).Asking := by
      obtain ⟨hnext, hholds, hchar⟩ := receiveChar_letter notice info hmode' hbuffer' hc env
      rw [hturn]
      refine ⟨hnext, hholds, ?_, hrest⟩
      rw [Link.unread, ← List.append_assoc, ← List.append_assoc]
      exact hpacket.append hchar
    rcases hasking with ⟨hstate, hall⟩ | ⟨hstate, cs', hcs', hall⟩
    · rw [hto] at hall
      exact .inl (hletter (hall c List.mem_cons_self) (.inl ⟨hstate, fun x hx => hall x (List.mem_cons_of_mem c hx)⟩))
    · rw [hto] at hcs'
      rcases List.cons_eq_append_iff.mp hcs' with ⟨rfl, hend⟩ | ⟨cs'', rfl, hrest⟩
      · -- The question ends.
        obtain ⟨rfl, rfl⟩ := List.cons.inj hend
        rw [hturn]
        refine .inr ⟨rfl, .inl hstate, ?_⟩
        rcases receiveChar_newline notice info hmode' hbuffer' env with hdumps | ⟨hnext, hchar⟩
        · exact .inl hdumps
        · refine .inr ⟨hnext, hstate, ?_⟩
          rw [Link.unread, ← List.append_assoc, ← List.append_assoc]
          exact hpacket.append hchar
      · exact .inl (hletter (hall c List.mem_cons_self)
          (.inr ⟨hstate, cs'', hrest, fun x hx => hall x (List.mem_cons_of_mem c hx)⟩))

theorem Link.Asked.dongleTurn (h : l.Asked) : (l.dongleTurn notice rx canGet env info).Asked := by
  obtain ⟨hto, hwaits, hanswers⟩ := h
  rcases Link.dongleTurn_cases notice rx canGet env info l with hturn | ⟨c, cs, hcons, hturn⟩
  · rw [hturn]
    refine ⟨hto, hwaits, ?_⟩
    simp only [receivePacket_monitorMode]
    rcases hanswers with hmode | ⟨hmode, hstate, hunread⟩
    · exact .inl hmode
    · refine .inr ⟨hmode, hstate, ?_⟩
      rw [Link.unread, ← List.append_assoc]
      exact hunread.append (noAnswer_receivePacket notice info hmode rx)
  · rw [hto] at hcons
    cases hcons

end

/-! ### The thread -/

theorem question_newline : ascii ":dump_human\n" = question ++ [10] := by decide

/-- What is written of the question when not all of it is. -/
theorem writeString_part {accepted : Nat} (h : (writeString (ascii ":dump_human\n") accepted).1 < 0) :
    ∀ c ∈ (writeString (ascii ":dump_human\n") accepted).2, c ∈ question := by
  rw [writeString, question_newline] at h
  rw [writeString, question_newline]
  simp only at h ⊢
  have hlen : accepted ≤ question.length := by
    by_contra hlong
    rw [List.take_of_length_le (by rw [List.length_append, List.length_singleton]; omega), if_neg (not_not.mpr rfl)] at h
    exact absurd h (by decide)
  rw [List.take_append_of_le_length hlen]
  exact fun c hc => List.mem_of_mem_take hc

theorem writeString_whole {accepted : Nat} (h : ¬ (writeString (ascii ":dump_human\n") accepted).1 < 0) :
    (writeString (ascii ":dump_human\n") accepted).2 = question ++ [10] := by
  rw [writeString] at h ⊢
  simp only at h ⊢
  split at h
  · exact absurd (show (-1 : Int) < 0 by decide) h
  · next hlen =>
    rw [← question_newline]
    exact (List.take_prefix _ _).eq_of_length (not_not.mp hlen)

/-- A turn of a thread that waits or listens writes nothing. -/
theorem Link.threadTurn_reads (hstate : l.thread.state ≠ 1) (openRet : Int) (accepted : Nat) :
    l.threadTurn decode openRet accepted = l ∨
      ∃ a t, l.thread.turn decode a = some t ∧ l.threadTurn decode openRet accepted = { l with thread := t } := by
  have hwrites : l.thread.writes accepted = [] := if_neg hstate
  rw [Link.threadTurn, hwrites, List.append_nil]
  split
  · exact .inl rfl
  · next t ht => exact .inr ⟨_, t, ht, rfl⟩

theorem Link.Asking.threadTurn (h : l.Asking) (openRet : Int) (accepted : Nat) :
    (l.threadTurn decode openRet accepted).Asking := by
  have ⟨hmode, hbuffer, hunread, hasking⟩ := h
  rcases hasking with ⟨hstate, hall⟩ | ⟨hstate, hquestion⟩
  · rcases Nat.le_one_iff_eq_zero_or_eq_one.mp hstate with hzero | hone
    · have hne : l.thread.state ≠ 1 := by omega
      rcases Link.threadTurn_reads decode hne openRet accepted with hsame | ⟨a, t, hturn, hnext⟩
      · rwa [hsame]
      · rw [SerialThread.turn, hzero] at hturn
        obtain rfl := Option.some.inj hturn
        rw [hnext]
        split
        · exact ⟨hmode, hbuffer, hunread, .inl ⟨hstate, hall⟩⟩
        · exact ⟨hmode, hbuffer, hunread, .inl ⟨by simp, hall⟩⟩
    · simp only [Link.threadTurn, SerialThread.turn, SerialThread.writes, hone, if_true]
      by_cases hfails : (writeString (ascii ":dump_human\n") accepted).1 < 0
      · rw [if_pos hfails]
        refine ⟨hmode, hbuffer, hunread, .inl ⟨Nat.zero_le 1, fun c hc => ?_⟩⟩
        cases List.mem_append.mp hc with
        | inl hc => exact hall c hc
        | inr hc => exact writeString_part hfails c hc
      · rw [if_neg hfails, writeString_whole hfails, ← List.append_assoc]
        refine ⟨hmode, hbuffer, hunread, .inr ⟨rfl, l.toDongle ++ question, rfl, fun c hc => ?_⟩⟩
        cases List.mem_append.mp hc with
        | inl hc => exact hall c hc
        | inr hc => exact hc
  · have hne : l.thread.state ≠ 1 := by omega
    rcases Link.threadTurn_reads decode hne openRet accepted with hsame | ⟨a, t, hturn, hnext⟩
    · rwa [hsame]
    · obtain ⟨piece, hpiece, hnow⟩ := turn_wait decode hstate hturn
      have hsplit : l.unread = piece ++ (bytesOf t.arriving ++ l.toBridge) := by
        rw [Link.unread, hpiece, List.append_assoc]
      rw [hnext]
      refine ⟨hmode, hbuffer, hunread.of_suffix ⟨piece, hsplit.symm⟩, .inr ⟨?_, hquestion⟩⟩
      rcases hnow with hwaits | ⟨-, hanswer⟩
      · exact hwaits
      · exact absurd (hanswer.trans (hsplit ▸ (List.prefix_append piece _).isInfix)) hunread.absent

theorem Link.Asked.threadTurn (h : l.Asked) (openRet : Int) (accepted : Nat) :
    (l.threadTurn decode openRet accepted).Asked := by
  have ⟨hto, hwaits, hanswers⟩ := h
  have hne : l.thread.state ≠ 1 := by omega
  rcases Link.threadTurn_reads decode hne openRet accepted with hsame | ⟨a, t, hturn, hnext⟩
  · rwa [hsame]
  · rw [hnext]
    rcases hwaits with hstate | hstate
    · obtain ⟨piece, hpiece, hnow⟩ := turn_wait decode hstate hturn
      have hsplit : l.unread = piece ++ (bytesOf t.arriving ++ l.toBridge) := by
        rw [Link.unread, hpiece, List.append_assoc]
      refine ⟨hto, hnow.imp_right (·.1), ?_⟩
      rcases hanswers with hmode | ⟨hmode, -, hunread⟩
      · exact .inl hmode
      · refine .inr ⟨hmode, ?_, hunread.of_suffix ⟨piece, hsplit.symm⟩⟩
        rcases hnow with hstay | ⟨-, hanswer⟩
        · exact hstay
        · exact absurd (hanswer.trans (hsplit ▸ (List.prefix_append piece _).isInfix)) hunread.absent
    · refine ⟨hto, .inr (turn_listening decode hstate hturn), .inl ?_⟩
      rcases hanswers with hmode | ⟨-, hwait, -⟩
      · exact hmode
      · omega

/-! ### Any step -/

/-- What either side is about to do is the same. -/
structure Link.Same (l l' : Link) : Prop where
  mode : l'.dongle.monitorMode = l.dongle.monitorMode
  buffer : l'.dongle.buffer = l.dongle.buffer
  toDongle : l'.toDongle = l.toDongle
  state : l'.thread.state = l.thread.state

theorem Link.Same.keeps {l' : Link} (hsame : l.Same l') (hunread : NoAnswer l.unread → NoAnswer l'.unread)
    (h : l.Asking ∨ l.Asked) : l'.Asking ∨ l'.Asked := by
  obtain ⟨hmode, hbuffer, hto, hstate⟩ := hsame
  refine h.imp ?_ ?_
  · rintro ⟨h₁, h₂, h₃, h₄⟩
    exact ⟨hmode ▸ h₁, hbuffer ▸ h₂, hunread h₃, by rwa [hto, hstate]⟩
  · rintro ⟨h₁, h₂, h₃⟩
    refine ⟨hto ▸ h₁, hstate ▸ h₂, ?_⟩
    rw [hmode, hstate]
    exact h₃.imp_right fun ⟨h, h', h''⟩ => ⟨h, h', hunread h''⟩

theorem Link.same_printed (isr : Firmware PUnit) : l.Same (l.printed notice isr) := ⟨rfl, rfl, rfl, rfl⟩

/-- A byte on its way arrives. -/
theorem Link.deliver_same (late : Bool) : l.Same (l.deliver late) ∧ (l.deliver late).unread = l.unread := by
  rw [Link.deliver]
  cases hto : l.toBridge with
  | nil => exact ⟨⟨rfl, rfl, rfl, rfl⟩, rfl⟩
  | cons c cs =>
    refine ⟨⟨rfl, rfl, rfl, rfl⟩, ?_⟩
    simp only [Link.unread, Link.arrive, bytesOf_append, hto, List.append_assoc]
    rfl

/-- The first byte is lost. -/
theorem Link.lose_same : l.Same l.lose ∧ l.lose.unread <:+ l.unread := by
  rw [Link.lose]
  cases harriving : l.thread.arriving with
  | nil =>
    refine ⟨⟨rfl, rfl, rfl, rfl⟩, ?_⟩
    rw [Link.unread, Link.unread, harriving]
    exact List.tail_suffix _
  | cons e es =>
    refine ⟨⟨rfl, rfl, rfl, rfl⟩, ?_⟩
    rw [Link.unread, Link.unread, harriving]
    cases e with
    | byte c late => exact List.suffix_cons c _
    | timeout | failed => exact List.suffix_refl _

theorem Link.arrive_same {e : SerialEvent} (he : bytesOf [e] = []) :
    l.Same (l.arrive e) ∧ (l.arrive e).unread = l.unread := by
  refine ⟨⟨rfl, rfl, rfl, rfl⟩, ?_⟩
  simp only [Link.unread, Link.arrive, bytesOf_append, he, List.append_nil]

theorem tmr0Isr_same (s : Dongle) : (val (tmr0Isr s)).monitorMode = s.monitorMode ∧ (val (tmr0Isr s)).buffer = s.buffer := by
  simp only [tmr0Isr, val_bind, val_pure, hop]
  split <;> exact ⟨rfl, rfl⟩

/-- A step in which neither side takes a turn, and no byte is lost on the open line. -/
def LinkStep.IsOther : LinkStep → Prop
  | .dongle _ _ _ _ | .interrupted _ _ _ _ _ | .thread _ _ | .drop => False
  | _ => True

/-- A step that loses no byte on the open line. -/
def LinkStep.Lossless : LinkStep → Prop
  | .drop => False
  | _ => True

/-- Interrupts put no answer into a text. -/
theorem noAnswer_printedBetween (isrs : List (Nat × Kbi)) :
    ∀ {s text : List UInt8}, NoAnswer (s ++ text) → NoAnswer (s ++ printedBetween notice text isrs) := by
  induction isrs with
  | nil => exact fun h => h
  | cons i isrs ih =>
    intro s text h
    rw [← List.take_append_drop i.1 text, ← List.append_assoc] at h
    have hinsert : NoAnswer (s ++ text.take i.1 ++ (serialOutput notice ⟨0, 0⟩ (log i.2.isr) ++ text.drop i.1)) := by
      cases i.2 with
      | kbi4 => exact Lacks.insert (y := 0x4F) (by decide) (by decide) h
      | kbi7 => exact Lacks.insert (y := 0x4E) (by decide) (by decide) h
    rw [← List.append_assoc] at hinsert
    have hrest := ih hinsert
    rw [printedBetween]
    simpa only [List.append_assoc] using hrest

/-- With interrupts a turn does the same, up to what they print. -/
theorem Link.interruptedTurn_same (l : Link) (rx : Option (Nat × Packet)) (canGet : Bool) (env : SendEnv) (info : RxInfo)
    (isrs : List (Nat × Kbi)) :
    (l.dongleTurn notice rx canGet env info).Same (l.interruptedTurn notice rx canGet env info isrs) ∧
      (NoAnswer (l.dongleTurn notice rx canGet env info).unread →
        NoAnswer (l.interruptedTurn notice rx canGet env info isrs).unread) := by
  have hassoc (text : List UInt8) : bytesOf l.thread.arriving ++ (l.toBridge ++ text) = l.unread ++ text :=
    (List.append_assoc _ _ text).symm
  refine ⟨⟨rfl, rfl, rfl, rfl⟩, fun h => ?_⟩
  simp only [Link.unread, Link.dongleTurn, Link.interruptedTurn, hassoc] at h ⊢
  exact noAnswer_printedBetween notice isrs h

/-- Between the turns no answer is printed. -/
theorem Link.step_other {st : LinkStep} (hst : st.IsOther) :
    l.Same (l.step decode notice st) ∧ (l.step decode notice st).thread.broadcast = l.thread.broadcast ∧
      ∃ text, NoAnswer text ∧ (l.step decode notice st).unread <:+ l.unread ++ text := by
  -- What is printed goes behind the rest.
  have hprinted (dongle : Dongle) (text : List UInt8) :
      Link.unread { l with dongle, toBridge := l.toBridge ++ text } <:+ l.unread ++ text := by
    rw [Link.unread, Link.unread, List.append_assoc]
  have hnothing {l' : Link} (hunread : l'.unread <:+ l.unread) : ∃ text, NoAnswer text ∧ l'.unread <:+ l.unread ++ text :=
    ⟨[], .nil, by rwa [List.append_nil]⟩
  cases st with
  | dongle | interrupted | thread | drop => exact False.elim hst
  | tmr0 =>
    obtain ⟨hmode, hbuffer⟩ := tmr0Isr_same l.dongle
    exact ⟨⟨hmode, hbuffer, rfl, rfl⟩, rfl, _, noAnswer_hop notice ⟨0, 0⟩ l.dongle, hprinted _ _⟩
  | kbi4 => exact ⟨l.same_printed notice _, rfl, _, NoAnswer.line (l := ascii "O") (by decide), hprinted _ _⟩
  | kbi7 => exact ⟨l.same_printed notice _, rfl, _, NoAnswer.line (l := ascii "N") (by decide), hprinted _ _⟩
  | deliver late =>
    rw [Link.step]
    split
    · exact ⟨⟨rfl, rfl, rfl, rfl⟩, rfl, hnothing (List.suffix_refl _)⟩
    · obtain ⟨hsame, hunread⟩ := l.deliver_same late
      refine ⟨hsame, ?_, hnothing (hunread ▸ List.suffix_refl _)⟩
      rw [Link.deliver]
      cases l.toBridge <;> rfl
  | lose =>
    rw [Link.step]
    split
    · obtain ⟨hsame, hunread⟩ := l.lose_same
      refine ⟨hsame, ?_, hnothing hunread⟩
      rw [Link.lose]
      cases l.thread.arriving <;> rfl
    · exact ⟨⟨rfl, rfl, rfl, rfl⟩, rfl, hnothing (List.suffix_refl _)⟩
  | timeout =>
    obtain ⟨hsame, hunread⟩ := l.arrive_same (e := .timeout) rfl
    exact ⟨hsame, rfl, hnothing (hunread ▸ List.suffix_refl _)⟩
  | failed =>
    obtain ⟨hsame, hunread⟩ := l.arrive_same (e := .failed) rfl
    exact ⟨hsame, rfl, hnothing (hunread ▸ List.suffix_refl _)⟩

theorem Link.keeps_step (h : l.Asking ∨ l.Asked) {st : LinkStep} (hst : st.Lossless) :
    (l.step decode notice st).Asking ∨ (l.step decode notice st).Asked := by
  have hturn (rx : Option (Nat × Packet)) (canGet : Bool) (env : SendEnv) (info : RxInfo) :
      (l.dongleTurn notice rx canGet env info).Asking ∨ (l.dongleTurn notice rx canGet env info).Asked := by
    cases h with
    | inl h => exact h.dongleTurn notice rx canGet env info
    | inr h => exact .inr (h.dongleTurn notice rx canGet env info)
  have hother (hst : st.IsOther) : (l.step decode notice st).Asking ∨ (l.step decode notice st).Asked := by
    obtain ⟨hsame, -, text, htext, hunread⟩ := l.step_other decode notice hst
    exact hsame.keeps (fun hno => (hno.append htext).of_suffix hunread) h
  cases st with
  | dongle rx canGet env info => exact hturn rx canGet env info
  | interrupted rx canGet env info isrs =>
    obtain ⟨hsame, hunread⟩ := l.interruptedTurn_same notice rx canGet env info isrs
    exact hsame.keeps hunread (hturn rx canGet env info)
  | drop => exact False.elim hst
  | thread openRet accepted =>
    exact h.imp (·.threadTurn decode openRet accepted) (·.threadTurn decode openRet accepted)
  | _ => exact hother trivial

/-- **A bridge that listens has a dongle that dumps**: from a start in which
the dongle does not dump in readable form, after any steps that lose no byte on
the open line. -/
theorem listening_dumps (h : l.Starts) (hmode : l.dongle.monitorMode ≠ DUMP_HUMAN) {sts : List LinkStep}
    (hsts : ∀ st ∈ sts, st.Lossless)
    (hlistens : (run (Link.step decode notice) l sts).thread.state = 3) :
    (run (Link.step decode notice) l sts).dongle.monitorMode = DUMP_HUMAN := by
  have hinv : (run (Link.step decode notice) l sts).Asking ∨ (run (Link.step decode notice) l sts).Asked :=
    Guarded.invariant (I := fun l : Link => l.Asking ∨ l.Asked) (fun l st h hst => Link.keeps_step decode notice h hst)
      (.inl (h.asking hmode)) (.of_forall fun st hst _ => hsts st hst)
  rcases hinv with ⟨-, -, -, hasking⟩ | ⟨-, -, hanswers⟩
  · omega
  · rcases hanswers with hdumps | ⟨-, hwaits, -⟩
    · exact hdumps
    · omega

end

/-- Both sides at their start. -/
def sampleLink : Link := { dongle := sampleDongle, thread := .new fun _ => 0, toDongle := [], toBridge := [] }

theorem sampleLink_starts : sampleLink.Starts where
  buffer := CommandBuffer.holds_boot _
  thread := ⟨_, rfl⟩
  toDongle := rfl
  toBridge := rfl

/-- The bridge asks, a call times out, the dongle answers, and what it prints arrives. -/
def sampleSteps : List LinkStep :=
  List.replicate 2 (.thread 1 12) ++ [.timeout] ++ List.replicate 12 (.dongle none true noBuffer ⟨0, 0⟩) ++
    List.replicate 57 (.deliver false)

/-- An interrupt inside a turn, and a byte lost on the closed port, before. -/
def disturbedSteps : List LinkStep :=
  [.interrupted none false noBuffer ⟨0, 0⟩ [(0, .kbi7)], .lose] ++ sampleSteps ++ [.deliver true] ++
    List.replicate 4 (.thread 1 12)

theorem disturbedSteps_lossless : ∀ st ∈ disturbedSteps, st.Lossless := by
  simp only [disturbedSteps, sampleSteps, List.mem_append, List.mem_cons, List.not_mem_nil, or_false, List.mem_replicate]
  rintro st ((((rfl | rfl) | ((⟨-, rfl⟩ | rfl) | ⟨-, rfl⟩) | ⟨-, rfl⟩) | rfl) | ⟨-, rfl⟩) <;> trivial

theorem listening_dumps_sample :
    (run (Link.step latin1 []) sampleLink disturbedSteps).dongle.monitorMode = DUMP_HUMAN :=
  listening_dumps latin1 [] sampleLink_starts (by decide) disturbedSteps_lossless (by decide +kernel)

end OflMetrics
