/-
CR LF and LF: the dongle fed the same command lines with either terminator.

`Controls` are the globals the commands work on. Its step for a command
(`Controls.step`, `Controls.sends`) is what the firmware does to them
(`dongleRun_controls`), so a run is the run of `Controls` over the commands
that reach `process_cmd`: with LF the lines, with CR LF each line and then an
empty one (`serialCommands_lf`, `serialCommands_crlf`). The empty command ends a dump, so
the two agree exactly when no line starts one (`crlf_iff`).
-/
import OflMetrics.Dongle.FirmwareFacts
import OflMetrics.Embed.Run

namespace OflMetrics

open Embed Embed.Traced Embed.CString

/-- A command, and what `:send` finds when it is carried out. -/
abbrev TypedLine := List UInt8 × SendEnv

/-- The globals the commands work on. -/
structure Controls where
  myconfig : ConfigT
  curChan : UInt8
  hopSpd : UInt8
  monitorMode : UInt8

def Dongle.controls (s : Dongle) : Controls :=
  { myconfig := s.myconfig, curChan := s.curChan, hopSpd := s.hopSpd, monitorMode := s.monitorMode }

/-! ## Commands on the controls -/

namespace Controls

/-- What a command does to them. -/
def step (k : Controls) (l : TypedLine) : Controls :=
  match parseCmd k.monitorMode l.1 with
  | .stopDump => { k with monitorMode := 0 }
  | .dumpHex => { k with monitorMode := DUMP_HEX }
  | .dumpHuman => { k with monitorMode := DUMP_HUMAN }
  | .channel ch => { k with curChan := UInt8.ofInt ch }
  | .chanhop tmp => { k with hopSpd := if tmp > 5 ∧ tmp < 180 then UInt8.ofInt tmp else k.hopSpd }
  | _ => k

/-- The frames it sends. -/
def sends (k : Controls) (l : TypedLine) : List Packet :=
  match parseCmd k.monitorMode l.1 with
  | .send cmd2 => sendFrame k.myconfig l.2 cmd2
  | _ => []

/-- The frames a sequence of commands sends. -/
def sent (k : Controls) : List TypedLine → List Packet
  | [] => []
  | l :: ls => k.sends l ++ (k.step l).sent ls

end Controls

theorem processCmd_controls (s : Dongle) (l : TypedLine) :
    (val (processCmd s l.1 l.2)).controls = s.controls.step l := by
  rw [processCmd, carryOut_val, Controls.step]
  simp only [Dongle.controls]
  cases parseCmd s.monitorMode l.1 <;> rfl

theorem processCmd_sentFrames (s : Dongle) (l : TypedLine) :
    sentFrames (log (processCmd s l.1 l.2)) = s.controls.sends l := by
  have hmode : s.controls.monitorMode = s.monitorMode := rfl
  rw [processCmd, carryOut_sentFrames, Controls.sends, hmode]
  cases parseCmd s.monitorMode l.1 <;> rfl

/-! ## The commands of a stream -/

/-- The commands that the characters of a stream make, each with the
environment of its terminator. -/
def serialCommands (b : CommandBuffer) : List (UInt8 × SendEnv) → List TypedLine
  | [] => []
  | (c, env) :: cs =>
    match (b.receive c).2 with
    | .process cmd => (cmd, env) :: serialCommands (b.receive c).1 cs
    | _ => serialCommands (b.receive c).1 cs

/-- What arrives on the serial port in some turns of the loop. -/
def serialInputs (is : List LoopInput) : List (UInt8 × SendEnv) := is.filterMap (·.serial)

theorem receivePacket_controls (s : Dongle) (rx : Option (Nat × Packet)) :
    (val (receivePacket s rx)).controls = s.controls := by
  rw [receivePacket_val]
  cases rx <;> rfl

/-- **A run of the loop is a run of its commands**, whatever it receives. -/
theorem dongleRun_controls (s : Dongle) (is : List LoopInput) :
    (val (dongleRun s is)).controls = run Controls.step s.controls (serialCommands s.buffer (serialInputs is)) ∧
      sentFrames (log (dongleRun s is)) = s.controls.sent (serialCommands s.buffer (serialInputs is)) := by
  induction is generalizing s with
  | nil => exact ⟨rfl, rfl⟩
  | cons i is ih =>
    have hbuffer := receivePacket_buffer s i.rxPacket
    have hcontrols := receivePacket_controls s i.rxPacket
    obtain ⟨hval, hframes⟩ := ih (val (dongleLoop s i))
    rw [dongleRun_cons_log, sentFrames_append, hframes, (dongleLoop_effects s i).1]
    have hrun : val (dongleRun s (i :: is)) = val (dongleRun (val (dongleLoop s i)) is) := rfl
    rw [hrun, hval, dongleLoop_val]
    generalize val (receivePacket s i.rxPacket) = s' at hbuffer hcontrols
    rw [← hbuffer, ← hcontrols]
    obtain ⟨rxPacket, serial⟩ := i
    cases serial with
    | none => exact ⟨rfl, rfl⟩
    | some b =>
      obtain ⟨c, env⟩ := b
      have hinputs : serialInputs ({ rxPacket, serial := some (c, env) } :: is) = (c, env) :: serialInputs is := rfl
      rw [receiveChar_val, receiveChar_sentFrames, hinputs, serialCommands]
      cases (s'.buffer.receive c).2 with
      | tooLong | echo => exact ⟨rfl, rfl⟩
      | process cmd =>
        have hstep := processCmd_controls s' (cmd, env)
        have hsends := processCmd_sentFrames s' (cmd, env)
        refine ⟨?_, ?_⟩
        · rw [run_cons, ← hstep]
          rfl
        · rw [Controls.sent, ← hstep, ← hsends]
          rfl

/-- A command line, as the user types it. -/
structure IsLine (l : List UInt8) : Prop where
  nonempty : l ≠ []
  fits : l.length ≤ 254
  chars : ∀ c ∈ l, c ≠ 0 ∧ IsTerminator c = false

/-- The characters of lines with a terminator. -/
def typeLines (e : List UInt8) (ls : List TypedLine) : List (UInt8 × SendEnv) :=
  ls.flatMap fun l => (l.1 ++ e).map (·, l.2)

/-- The characters of a line, and its terminator, behind those the buffer holds. -/
theorem serialCommands_line {e : UInt8} (he : IsTerminator e = true) (env : SendEnv) (rest : List (UInt8 × SendEnv))
    {l held : List UInt8} (hl : ∀ c ∈ l, c ≠ 0 ∧ IsTerminator c = false) (hheld : ∀ c ∈ held, c ≠ 0)
    (hfits : held.length + l.length ≤ 254) {b : CommandBuffer} (hb : b.Holds held) :
    ∃ b' : CommandBuffer, b'.Holds [] ∧
      serialCommands b ((l ++ [e]).map (·, env) ++ rest) = (held ++ l, env) :: serialCommands b' rest := by
  induction l generalizing held b with
  | nil =>
    have hroom : held.length ≠ CMD_MAXLEN := by
      simp only [List.length_nil, CMD_MAXLEN] at hfits ⊢
      omega
    refine ⟨b.clear, hb.clear, ?_⟩
    have hend : e = 0x0D ∨ e = 0x0A := of_decide_eq_true he
    simp only [List.nil_append, List.map_cons, List.map_nil, List.singleton_append, serialCommands,
      hb.receive hheld, if_neg hroom, if_pos hend, List.append_nil]
  | cons c l ih =>
    have hc := hl c List.mem_cons_self
    have hroom : held.length < CMD_MAXLEN := by
      simp only [List.length_cons, CMD_MAXLEN] at hfits ⊢
      omega
    have hchar : ¬ (c = 0x0D ∨ c = 0x0A) := of_decide_eq_false hc.2
    have hnext : ∀ x ∈ held ++ [c], x ≠ 0 := by
      intro x hx
      cases List.mem_append.mp hx with
      | inl hx => exact hheld x hx
      | inr hx =>
        rw [List.mem_singleton.mp hx]
        exact hc.1
    have hlen : (held ++ [c]).length + l.length ≤ 254 := by
      rw [List.length_append, List.length_singleton]
      rw [List.length_cons] at hfits
      omega
    obtain ⟨b', hb', hrest⟩ := ih (fun x hx => hl x (List.mem_cons_of_mem _ hx)) hnext hlen (hb.append hroom c)
    refine ⟨b', hb', ?_⟩
    simp only [List.cons_append, List.map_cons, serialCommands, hb.receive hheld, if_neg (Nat.ne_of_lt hroom),
      if_neg hchar]
    rw [hrest, List.append_assoc, List.singleton_append]

/-- With LF the commands are the lines. -/
theorem serialCommands_lf {ls : List TypedLine} (hls : ∀ l ∈ ls, IsLine l.1) {b : CommandBuffer} (hb : b.Holds []) :
    serialCommands b (typeLines [0x0A] ls) = ls := by
  induction ls generalizing b with
  | nil => rfl
  | cons l ls ih =>
    have hline := hls l List.mem_cons_self
    obtain ⟨b', hb', hl⟩ := serialCommands_line (e := 0x0A) rfl l.2 (typeLines [0x0A] ls) hline.chars
      (fun c hc => absurd hc List.not_mem_nil) (by simpa using hline.fits) hb
    have hrest := ih (fun l' h => hls l' (List.mem_cons_of_mem _ h)) hb'
    rw [typeLines, List.flatMap_cons, ← typeLines, hl, hrest]
    rfl

/-- With CR LF an empty one follows each. -/
theorem serialCommands_crlf {ls : List TypedLine} (hls : ∀ l ∈ ls, IsLine l.1) {b : CommandBuffer} (hb : b.Holds []) :
    serialCommands b (typeLines [0x0D, 0x0A] ls) = ls.flatMap fun l => [l, ([], l.2)] := by
  induction ls generalizing b with
  | nil => rfl
  | cons l ls ih =>
    have hline := hls l List.mem_cons_self
    obtain ⟨b', hb', hl⟩ := serialCommands_line (e := 0x0D) rfl l.2
      (([0x0A] : List UInt8).map (·, l.2) ++ typeLines [0x0D, 0x0A] ls) hline.chars
      (fun c hc => absurd hc List.not_mem_nil) (by simpa using hline.fits) hb
    obtain ⟨b'', hb'', hempty⟩ := serialCommands_line (e := 0x0A) rfl l.2 (typeLines [0x0D, 0x0A] ls)
      (l := []) (fun c hc => absurd hc List.not_mem_nil) (fun c hc => absurd hc List.not_mem_nil) (by decide) hb'
    have hrest := ih (fun l' h => hls l' (List.mem_cons_of_mem _ h)) hb''
    have hsplit : typeLines [0x0D, 0x0A] (l :: ls) = (l.1 ++ [0x0D]).map (·, l.2) ++
        (([0x0A] : List UInt8).map (·, l.2) ++ typeLines [0x0D, 0x0A] ls) := by
      simp [typeLines]
    rw [hsplit, hl]
    rw [List.nil_append] at hempty
    rw [hempty, hrest]
    rfl

/-! ## The two runs -/

/-- A line that starts a dump. -/
def IsDump (l : List UInt8) : Prop :=
  ¬ ascii "?" <+: l ∧ (ascii ":dump_hex" <:+: l ∨ ascii ":dump_human" <:+: l)

/-- The same but for the mode. -/
structure Controls.Agree (k k' : Controls) : Prop where
  myconfig : k.myconfig = k'.myconfig
  curChan : k.curChan = k'.curChan
  hopSpd : k.hopSpd = k'.hopSpd

/-- The mode counts for the empty line only. -/
theorem parseCmd_nonempty (monitorMode monitorMode' : UInt8) {l : List UInt8} (hl : l ≠ []) :
    parseCmd monitorMode l = parseCmd monitorMode' l := by
  simp only [parseCmd, hl, and_false, if_false]

theorem parseCmd_dump (monitorMode : UInt8) {l : List UInt8} (hl : l ≠ []) :
    (parseCmd monitorMode l = .dumpHex ∨ parseCmd monitorMode l = .dumpHuman) ∧ IsDump l ∨
      (parseCmd monitorMode l ≠ .dumpHex ∧ parseCmd monitorMode l ≠ .dumpHuman ∧
        parseCmd monitorMode l ≠ .stopDump) ∧ ¬ IsDump l := by
  have hstop : ¬ (monitorMode ≠ 0 ∧ l = []) := fun h => hl h.2
  unfold parseCmd
  rw [if_neg hstop]
  by_cases hhelp : ascii "?" <+: l
  · rw [if_pos hhelp]
    exact .inr ⟨⟨nofun, nofun, nofun⟩, fun h => h.1 hhelp⟩
  by_cases hhex : ascii ":dump_hex" <:+: l
  · rw [if_neg hhelp, if_pos hhex]
    exact .inl ⟨.inl rfl, hhelp, .inl hhex⟩
  by_cases hhuman : ascii ":dump_human" <:+: l
  · rw [if_neg hhelp, if_neg hhex, if_pos hhuman]
    exact .inl ⟨.inr rfl, hhelp, .inr hhuman⟩
  · -- None of the later branches is a dump.
    rw [if_neg hhelp, if_neg hhex, if_neg hhuman]
    refine .inr ⟨?_, fun h => h.2.elim hhex hhuman⟩
    repeat' split
    all_goals exact ⟨nofun, nofun, nofun⟩

namespace Controls

variable {k k' : Controls}

theorem Agree.step (h : k.Agree k') {l : TypedLine} (hl : l.1 ≠ []) : (k.step l).Agree (k'.step l) := by
  obtain ⟨hconfig, hchan, hspd⟩ := h
  rw [Controls.step, Controls.step, parseCmd_nonempty k.monitorMode k'.monitorMode hl]
  cases parseCmd k'.monitorMode l.1 with
  | chanhop tmp => exact ⟨hconfig, hchan, by rw [hspd]⟩
  | channel ch => exact ⟨hconfig, rfl, hspd⟩
  | _ => exact ⟨hconfig, hchan, hspd⟩

theorem Agree.sends (h : k.Agree k') {l : TypedLine} (hl : l.1 ≠ []) : k.sends l = k'.sends l := by
  rw [Controls.sends, Controls.sends, parseCmd_nonempty k.monitorMode k'.monitorMode hl, h.myconfig]

/-- The empty command ends a dump, and does nothing else. -/
theorem step_empty (k : Controls) (env : SendEnv) :
    k.step ([], env) = { k with monitorMode := 0 } ∧ k.sends ([], env) = [] := by
  by_cases hmode : k.monitorMode = 0
  · have hparse : parseCmd k.monitorMode [] = .unknown := by
      rw [hmode]
      decide
    rw [Controls.step, Controls.sends, hparse]
    obtain ⟨myconfig, curChan, hopSpd, monitorMode⟩ := k
    exact ⟨by rw [← hmode], rfl⟩
  · have hparse : parseCmd k.monitorMode [] = .stopDump := if_pos ⟨hmode, rfl⟩
    rw [Controls.step, Controls.sends, hparse]
    exact ⟨rfl, rfl⟩

/-- A line leaves the mode at zero exactly when it was and no dump starts. -/
theorem step_mode (k : Controls) {l : TypedLine} (hl : l.1 ≠ []) :
    (k.step l).monitorMode = 0 ↔ k.monitorMode = 0 ∧ ¬ IsDump l.1 := by
  rw [Controls.step]
  cases parseCmd_dump k.monitorMode hl with
  | inl h =>
    refine iff_of_false ?_ fun hh => hh.2 h.2
    cases h.1 with
    | inl hhex =>
      rw [hhex]
      exact (by decide : DUMP_HEX ≠ 0)
    | inr hhuman =>
      rw [hhuman]
      exact (by decide : DUMP_HUMAN ≠ 0)
  | inr h =>
    obtain ⟨⟨hhex, hhuman, hstop⟩, hdump⟩ := h
    have hmode : (k.step l).monitorMode = k.monitorMode := by
      rw [Controls.step]
      cases hparse : parseCmd k.monitorMode l.1 with
      | dumpHex => exact absurd hparse hhex
      | dumpHuman => exact absurd hparse hhuman
      | stopDump => exact absurd hparse hstop
      | _ => rfl
    rw [Controls.step] at hmode
    rw [hmode]
    exact ⟨fun h => ⟨h, hdump⟩, fun h => h.1⟩

/-- With LF, the mode is zero at the end exactly when it was and no dump starts. -/
theorem run_lf_mode (k : Controls) {ls : List TypedLine} (hls : ∀ l ∈ ls, l.1 ≠ []) :
    (run step k ls).monitorMode = 0 ↔ k.monitorMode = 0 ∧ ∀ l ∈ ls, ¬ IsDump l.1 := by
  induction ls generalizing k with
  | nil => simp
  | cons l ls ih =>
    rw [run_cons, ih _ fun l' h => hls l' (List.mem_cons_of_mem _ h), step_mode k (hls l List.mem_cons_self),
      List.forall_mem_cons, and_assoc]

/-- The lines of a CR LF run, each with the empty one behind it. -/
def crlf (ls : List TypedLine) : List TypedLine := ls.flatMap fun l => [l, ([], l.2)]

/-- The two runs stay in step, but for the mode. -/
theorem Agree.run (h : k.Agree k') {ls : List TypedLine} (hls : ∀ l ∈ ls, l.1 ≠ []) :
    (Embed.run Controls.step k ls).Agree (Embed.run Controls.step k' (crlf ls)) ∧ k.sent ls = k'.sent (crlf ls) := by
  induction ls generalizing k k' with
  | nil => exact ⟨h, rfl⟩
  | cons l ls ih =>
    have hl := hls l List.mem_cons_self
    obtain ⟨hstep, hsends⟩ := step_empty (k'.step l) l.2
    have hnext : (k.step l).Agree ((k'.step l).step ([], l.2)) := by
      obtain ⟨hconfig, hchan, hspd⟩ := h.step hl
      rw [hstep]
      exact ⟨hconfig, hchan, hspd⟩
    obtain ⟨hrun, hsent⟩ := ih hnext fun l' h => hls l' (List.mem_cons_of_mem _ h)
    refine ⟨hrun, ?_⟩
    have hcrlf : crlf (l :: ls) = l :: ([], l.2) :: crlf ls := rfl
    rw [hcrlf, sent, sent, sent, hsends, List.nil_append, h.sends hl, hsent]

/-- With CR LF the mode is zero after any line. -/
theorem run_crlf_mode {k : Controls} {ls : List TypedLine} (h : k.monitorMode = 0 ∨ ls ≠ []) :
    (Embed.run Controls.step k (crlf ls)).monitorMode = 0 := by
  induction ls generalizing k with
  | nil => exact h.resolve_right fun hne => hne rfl
  | cons l ls ih =>
    have hempty : ((k.step l).step ([], l.2)).monitorMode = 0 := by rw [(step_empty _ _).1]
    exact ih (.inl hempty)

end Controls

/-- The runs end in the same mode, channel and period, and send the same. -/
structure SameEffect (x y : Firmware Dongle) : Prop where
  monitorMode : (val x).monitorMode = (val y).monitorMode
  curChan : (val x).curChan = (val y).curChan
  hopSpd : (val x).hopSpd = (val y).hopSpd
  sentFrames : sentFrames (log x) = sentFrames (log y)

/-- **When CR LF means the same as LF**: there is nothing to end. In every
other case the dump goes on with LF, and is over with CR LF. -/
theorem crlf_iff (s : Dongle) (hs : s.buffer.Holds []) (ls : List TypedLine) (hls : ∀ l ∈ ls, IsLine l.1)
    (is is' : List LoopInput) (his : serialInputs is = typeLines [0x0A] ls)
    (his' : serialInputs is' = typeLines [0x0D, 0x0A] ls) :
    SameEffect (dongleRun s is) (dongleRun s is') ↔
      ls = [] ∨ s.monitorMode = 0 ∧ ∀ l ∈ ls, ¬ IsDump l.1 := by
  obtain ⟨hval, hsent⟩ := dongleRun_controls s is
  obtain ⟨hval', hsent'⟩ := dongleRun_controls s is'
  rw [his, serialCommands_lf hls hs] at hval hsent
  rw [his', serialCommands_crlf hls hs, ← Controls.crlf] at hval' hsent'
  have hne : ∀ l ∈ ls, l.1 ≠ [] := fun l h => (hls l h).nonempty
  have hself : s.controls.Agree s.controls := ⟨rfl, rfl, rfl⟩
  obtain ⟨hagree, hframes⟩ := hself.run hne
  rw [← hval, ← hval'] at hagree
  have hsame : SameEffect (dongleRun s is) (dongleRun s is') ↔
      (val (dongleRun s is)).controls.monitorMode = (val (dongleRun s is')).controls.monitorMode := by
    constructor
    · intro h
      exact h.monitorMode
    · intro h
      exact ⟨h, hagree.curChan, hagree.hopSpd, by rw [hsent, hsent', hframes]⟩
  rw [hsame, hval, hval']
  cases ls with
  | nil => exact iff_of_true rfl (.inl rfl)
  | cons l ls =>
    rw [Controls.run_crlf_mode (.inr (List.cons_ne_nil l ls)), Controls.run_lf_mode _ hne]
    constructor
    · intro h
      exact .inr h
    · intro h
      exact h.resolve_left (List.cons_ne_nil l ls)

theorem crlf_info :
    SameEffect (dongleRun sampleDongle (typed (typeLines [0x0A] [(ascii ":info", noBuffer)])))
      (dongleRun sampleDongle (typed (typeLines [0x0D, 0x0A] [(ascii ":info", noBuffer)]))) := by
  have hline : IsLine (ascii ":info") := ⟨by decide, by decide, by decide +kernel⟩
  refine (crlf_iff sampleDongle (CommandBuffer.holds_boot _) [(ascii ":info", noBuffer)] (fun l hl => ?_) _ _
    rfl rfl).mpr (.inr ⟨rfl, fun l hl => ?_⟩)
  · rw [List.mem_singleton.mp hl]
    exact hline
  · rw [List.mem_singleton.mp hl]
    unfold IsDump
    decide +kernel

/-- A dump started with CR LF is over at once. -/
theorem crlf_dump_stopped :
    ¬ SameEffect (dongleRun sampleDongle (typed (typeLines [0x0A] [(ascii ":dump_human", noBuffer)])))
      (dongleRun sampleDongle (typed (typeLines [0x0D, 0x0A] [(ascii ":dump_human", noBuffer)]))) := by
  intro h
  exact absurd h.monitorMode (by decide +kernel)

end OflMetrics
