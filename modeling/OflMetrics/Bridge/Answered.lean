/-
When nothing fails on the line, and the interrupts print between the turns of
the dongle's loop, the handshake comes to its end: whatever the dongle was
doing, and whatever else it prints, the bridge reads the answer
(`handshake_completes`). An interrupt inside the answer would cut its line.

The dongle prints a line end in front of the answer, and a call of `ReadString`
ends at a line end at the latest; so some call begins where the answer does.
-/
import OflMetrics.Bridge.Handshake

namespace OflMetrics

open Embed Embed.CString Embed.Traced

/-- The line of the answer, without its line feed. -/
def answerLine : List UInt8 := ascii "OK dump_human mode <press any key to stop>\r"

/-- In a stream that begins a line, the line of the answer is behind `before`, and
`behind` is behind it. -/
structure AnswerAt (before behind s : List UInt8) : Prop where
  text : s = before ++ (answerLine ++ 10 :: behind)
  ended : ∀ c ∈ before.getLast?, c = 10

theorem AnswerAt.append {before behind s : List UInt8} (h : AnswerAt before behind s) (t : List UInt8) :
    AnswerAt before (behind ++ t) (s ++ t) where
  text := by rw [h.text, List.append_assoc, List.append_assoc, List.cons_append]
  ended := h.ended

theorem AnswerAt.newline {before behind s : List UInt8} (h : AnswerAt before behind s) : 10 ∈ s := by
  rw [h.text]
  exact List.mem_append_right _ (List.mem_append_right _ List.mem_cons_self)

/-- A piece of the stream in which a line ends at the end at most: it is in front
of the answer, or nothing is. -/
theorem AnswerAt.cut {before behind piece s : List UInt8} (h : AnswerAt before behind (piece ++ s))
    (hpiece : 10 ∉ piece.dropLast) :
    (∃ before', before = piece ++ before' ∧ AnswerAt before' behind s) ∨ before = [] := by
  obtain ⟨heq, hlast⟩ := h
  rcases List.append_eq_append_iff.mp heq with ⟨as, rfl, rfl⟩ | ⟨bs, rfl, hbs⟩
  · refine .inl ⟨as, rfl, rfl, fun c hc => hlast c ?_⟩
    rw [List.getLast?_append, hc]
    rfl
  · rcases List.eq_nil_or_concat before with rfl | ⟨before, c, rfl⟩
    · exact .inr rfl
    · rw [List.concat_eq_append] at hlast hpiece
      have hc : c = 10 := hlast c List.getLast?_concat
      subst hc
      cases bs with
      | nil => exact .inl ⟨[], by rw [List.concat_eq_append, List.append_nil, List.append_nil], hbs.symm, by simp⟩
      | cons b bs =>
        rw [List.dropLast_append_cons] at hpiece
        exact absurd (List.mem_append_left _ (List.mem_append_right before (List.mem_singleton.mpr rfl))) hpiece

/-! ## A call of `ReadString` in time -/

/-- A call waits for a line end; or it has read as much as it may; or it reads a line. -/
theorem readString_inTime_cases (m : Mem UInt8) (s : List UInt8) :
    (readString 10 128 m 0 (inTime s) = none ∧ 10 ∉ s) ∨
      (∃ ret m' piece rest, s = piece ++ rest ∧ 10 ∉ piece ∧ piece.length = 128 ∧
        readString 10 128 m 0 (inTime s) = some (ret, m', inTime rest)) ∨
      ∃ line m' rest, s = line ++ 10 :: rest ∧ 10 ∉ line ∧ line.length < 128 ∧
        readString 10 128 m 0 (inTime s) = some ((line.length : Int) + 1, m', inTime rest) ∧
        Stored m m' (line ++ [10]) := by
  have hsplit : s = s.takeWhile (· ≠ 10) ++ s.dropWhile (· ≠ 10) := List.takeWhile_append_dropWhile.symm
  have hline : 10 ∉ s.takeWhile (· ≠ 10) := fun hmem => by simpa using List.mem_takeWhile_imp hmem
  generalize s.takeWhile (· ≠ 10) = line at hsplit hline
  have hrest : ∀ c ∈ (s.dropWhile (· ≠ 10)).head?, c = 10 := by
    intro c hc
    have hnot := List.head?_dropWhile_not (· ≠ 10) s
    rw [hc] at hnot
    simpa using hnot
  generalize s.dropWhile (· ≠ 10) = rest at hsplit hrest
  subst hsplit
  have hevents (a b : List UInt8) : inTime (a ++ b) = inTime a ++ inTime b := List.map_append
  rcases Nat.lt_or_ge line.length 128 with hlt | hge
  · cases rest with
    | nil =>
      refine .inl ⟨?_, by rwa [List.append_nil]⟩
      rw [hevents, readString_inTime hline m (by omega)]
      simp only [inTime, List.map_nil, readString, Nat.zero_add, if_pos hlt]
    | cons c rest =>
      obtain rfl := hrest c rfl
      obtain ⟨m', hread, hstored⟩ := readString_line hline hlt m false (inTime rest)
      refine .inr (.inr ⟨line, m', rest, rfl, hline, hlt, ?_, hstored⟩)
      rw [hevents]
      exact hread
  · have hlen : (line.take 128).length = 128 := List.length_take_of_le hge
    have hpiece : 10 ∉ line.take 128 := fun hmem => hline (List.mem_of_mem_take hmem)
    have hread := readString_inTime hpiece m (by omega) (inTime (line.drop 128 ++ rest)) (n := 0)
    refine .inr (.inl ⟨-3, m.copy 0 ((line.take 128).getD · 0) 128, line.take 128, line.drop 128 ++ rest, ?_, hpiece, hlen, ?_⟩)
    · rw [← List.append_assoc, List.take_append_drop]
    · rw [← hevents, ← List.append_assoc, List.take_append_drop, hlen] at hread
      rw [hread]
      cases line.drop 128 ++ rest <;> rfl

/-! ## Turns of the thread -/

section

variable (decode : List UInt8 → List Char) {t : SerialThread} (a : PortAnswers)

/-- A turn of a thread that waits for an answer on its way: it waits for more, or
has read a piece in front of the answer, or has read the answer. -/
theorem turn_answer (ht : t.state = 2) {before behind s rest : List UInt8} {n : Nat}
    (harriving : t.arriving = afterTimeouts n s) (h : AnswerAt before behind (s ++ rest)) :
    (t.turn decode a = none ∧ 10 ∉ s) ∨ ∃ t' piece n' s', t.turn decode a = some t' ∧ s = piece ++ s' ∧
      n' + s'.length < n + s.length ∧ t'.arriving = afterTimeouts n' s' ∧ t'.broadcast = t.broadcast ∧
      ((∃ before', before = piece ++ before' ∧ AnswerAt before' behind (s' ++ rest)) ∨
        t'.state = 3 ∧ s' ++ rest = behind) := by
  obtain _ | n := n
  swap
  · obtain ⟨rxBuf, hturn⟩ := turn_timeout decode (.inl ht) harriving a
    exact .inr ⟨_, [], n, s, hturn, rfl, by omega, rfl, rfl, .inl ⟨before, rfl, h⟩⟩
  have hevents : t.arriving = inTime s := harriving
  have hshorter {piece s' : List UInt8} (hne : piece ≠ []) : 0 + s'.length < 0 + (piece ++ s').length := by
    have hpos := List.length_pos_iff.mpr hne
    rw [List.length_append]
    omega
  rw [SerialThread.turn, ht]
  simp only [SerialThread.readString, hevents]
  rcases readString_inTime_cases (t.rxBuf.fill 0 0 BUFFER_SIZE) s with
    ⟨hread, hnone⟩ | ⟨ret, m', piece, s', rfl, hpiece, hlen, hread⟩ | ⟨line, m', s', rfl, hline, hlt, hread, hstored⟩
  · exact .inl ⟨by rw [hread]; rfl, hnone⟩
  · have hne : piece ≠ [] := List.ne_nil_of_length_pos (hlen ▸ Nat.succ_pos 127)
    rw [hread, Option.map_some]
    refine .inr ⟨_, piece, 0, s', rfl, rfl, hshorter hne, rfl, rfl, .inl ?_⟩
    rw [List.append_assoc] at h
    rcases h.cut (fun hmem => hpiece (List.mem_of_mem_dropLast hmem)) with hfront | rfl
    · exact hfront
    · -- The answer would be longer than all a call may read.
      have hlong : (answerLine ++ [10]).length ≤ piece.length := by
        rw [hlen]
        decide
      have hwhole : answerLine ++ [10] <+: piece ++ (s' ++ rest) :=
        ⟨behind, by rw [h.text, List.append_assoc, List.singleton_append, List.nil_append]⟩
      have hpre : answerLine ++ [10] <+: piece := List.prefix_of_prefix_length_le hwhole (List.prefix_append _ _) hlong
      exact absurd (hpre.subset (List.mem_append_right _ (List.mem_singleton.mpr rfl))) hpiece
  · have hsplit : line ++ 10 :: s' ++ rest = line ++ [10] ++ (s' ++ rest) := by simp
    have hconcat : line ++ 10 :: s' = line ++ [10] ++ s' := by rw [List.append_assoc, List.singleton_append]
    rw [hsplit] at h
    rw [hread, Option.map_some, hconcat]
    refine .inr ⟨_, line ++ [10], 0, s', rfl, rfl, hshorter (List.append_ne_nil_of_right_ne_nil line (List.cons_ne_nil 10 [])), rfl, rfl, ?_⟩
    rcases h.cut (by rwa [List.dropLast_concat]) with hfront | rfl
    · exact .inl hfront
    · -- The line read is the answer.
      have htext := h.text
      have hlines := congrArg (lines IsNewline) htext
      rw [List.append_assoc, List.singleton_append, List.nil_append, lines, lines,
        linesFrom_line (isNewline_of_not_mem hline) rfl,
        linesFrom_line (isNewline_of_not_mem (show 10 ∉ answerLine by decide)) rfl] at hlines
      have hsame : line = answerLine := (List.cons.inj hlines).1
      subst hsame
      rw [List.append_assoc, List.nil_append, List.append_cancel_left_eq, List.singleton_append] at htext
      refine .inr ⟨if_pos ⟨by omega, ?_⟩, (List.cons.inj htext).2⟩
      have hcstr := hstored.cstr (k := 0) (Nat.zero_le _) (show (answerLine ++ [10]).length < BUFFER_SIZE by decide)
      rw [Nat.sub_zero] at hcstr
      rw [hcstr]
      decide

/-- What is left of what came in time. -/
theorem turn_punctual (ht : t.state = 2 ∨ t.state = 3) (harriving : Punctual t.arriving) {t' : SerialThread}
    (h : t.turn decode a = some t') : (t'.state = 2 ∨ t'.state = 3) ∧ Punctual t'.arriving := by
  obtain ⟨n, s, harriving⟩ := harriving
  obtain _ | n := n
  swap
  · obtain ⟨rxBuf, hturn⟩ := turn_timeout decode ht harriving a
    obtain rfl := Option.some.inj (h.symm.trans hturn)
    exact ⟨ht, n, s, rfl⟩
  have hevents : t.arriving = inTime s := harriving
  have hread {ret : Int} {m' : Mem UInt8} {es' : List SerialEvent}
      (hread : readString 10 128 (t.rxBuf.fill 0 0 BUFFER_SIZE) 0 (inTime s) = some (ret, m', es')) :
      Punctual es' := by
    rcases readString_inTime_cases (t.rxBuf.fill 0 0 BUFFER_SIZE) s with
      ⟨hnone, -⟩ | ⟨_, _, _, s', -, -, -, hsome⟩ | ⟨_, _, s', -, -, -, hsome, -⟩
    · rw [hnone] at hread
      cases hread
    · rw [hsome] at hread
      cases hread
      exact ⟨0, s', rfl⟩
    · rw [hsome] at hread
      cases hread
      exact ⟨0, s', rfl⟩
  rcases ht with ht | ht
  · rw [SerialThread.turn, ht] at h
    obtain ⟨r, hr, rfl⟩ := Option.map_eq_some_iff.mp h
    rw [SerialThread.readString, hevents] at hr
    refine ⟨?_, hread hr⟩
    by_cases hok : r.1 > 0 ∧ ascii "OK dump_human mode" <:+: r.2.1.cstr 0 0 BUFFER_SIZE
    · exact .inr (if_pos hok)
    · exact .inl (if_neg hok)
  · rw [SerialThread.turn, ht] at h
    obtain ⟨r, hr, rfl⟩ := Option.map_eq_some_iff.mp h
    rw [SerialThread.readString, hevents] at hr
    exact ⟨.inr rfl, hread hr⟩

/-- Turns enough for all that has arrived. -/
theorem run_answer {as : List PortAnswers} (h : t.state = 3 ∨ t.state = 2 ∧
    ∃ before behind n s, t.arriving = afterTimeouts n s ∧ n + s.length ≤ as.length ∧ AnswerAt before behind s) :
    (t.run decode as).state = 3 := by
  induction as generalizing t with
  | nil =>
    rcases h with h | ⟨-, before, behind, n, s, -, hlen, hanswer⟩
    · exact h
    · rw [List.eq_nil_of_length_eq_zero (Nat.le_zero.mp (Nat.le_trans (Nat.le_add_left _ n) hlen))] at hanswer
      exact absurd hanswer.newline List.not_mem_nil
  | cons a as ih =>
    rw [SerialThread.run]
    rcases h with h | ⟨h, before, behind, n, s, harriving, hlen, hanswer⟩
    · cases hturn : t.turn decode a with
      | none => exact h
      | some t' => exact ih (.inl (turn_listening decode h hturn))
    · have hanswer' := hanswer
      rw [← List.append_nil s] at hanswer'
      rcases turn_answer decode a h harriving hanswer' with
        ⟨-, hnone⟩ | ⟨t', piece, n', s', hturn, rfl, hless, hleft, -, hnext⟩
      · exact absurd hanswer.newline hnone
      · rw [hturn]
        refine ih ?_
        rcases (turn_punctual decode a (.inl h) ⟨n, _, harriving⟩ hturn).1 with hwaits | hlistens
        · rcases hnext with ⟨before', -, hfront⟩ | ⟨hread, -⟩
          · refine .inr ⟨hwaits, before', behind, n', s', hleft, ?_, by rwa [List.append_nil] at hfront⟩
            rw [List.length_cons] at hlen
            omega
          · exact .inl hread
        · exact .inl hlistens

end

/-! ## The whole -/

/-- A step in which nothing fails on the way to the bridge: no interrupt prints
inside a turn, no byte is lost on the open line, none comes late, and a call times
out only when nothing is left to read, as one does every 100 ms of a quiet line. -/
def Link.Calm (l : Link) : LinkStep → Prop
  | .interrupted _ _ _ _ _ | .drop | .failed => False
  | .deliver late => late = false
  | .timeout => bytesOf l.thread.arriving = []
  | _ => True

/-- A write takes all of the question. -/
def LinkStep.Writes : LinkStep → Prop
  | .thread _ accepted => question.length < accepted
  | _ => True

/-- Nothing fails either way. -/
def Link.Fine (l : Link) (st : LinkStep) : Prop := l.Calm st ∧ st.Writes

theorem Link.Calm.lossless {l : Link} {st : LinkStep} (h : l.Calm st) : st.Lossless := by
  cases st with
  | drop => exact h
  | _ => trivial

/-- How far the handshake is. -/
inductive Link.Phase (l : Link) : Prop where
  | unasked (state : l.thread.state ≤ 1) (toDongle : l.toDongle = []) (buffer : l.dongle.buffer.Holds [])
  | asked (state : l.thread.state = 2 ∨ l.thread.state = 3) (came left : List UInt8) (split : question = came ++ left)
    (toDongle : l.toDongle = left ++ [10]) (buffer : l.dongle.buffer.Holds came)
  | answered (toDongle : l.toDongle = []) (mode : l.dongle.monitorMode = DUMP_HUMAN)
    (answer : l.thread.state = 3 ∨ l.thread.state = 2 ∧ ∃ before behind, AnswerAt before behind l.unread)

/-- Nothing has failed. -/
structure Link.OnTime (l : Link) : Prop where
  arriving : Punctual l.thread.arriving
  phase : l.Phase

section

variable (decode : List UInt8 → List Char) (notice : List UInt8) {l : Link}

theorem Link.Starts.onTime (h : l.Starts) : l.OnTime := by
  obtain ⟨rxBuf, hthread⟩ := h.thread
  refine ⟨⟨0, [], by rw [hthread]; rfl⟩, .unasked ?_ h.toDongle h.buffer⟩
  rw [hthread]
  exact Nat.zero_le 1

/-- What the dongle does at the end of the question. -/
theorem receiveChar_question (info : RxInfo) {s : Dongle} (hb : s.buffer.Holds question) (env : SendEnv) :
    let r := receiveChar s (some (10, env))
    (val r).monitorMode = DUMP_HUMAN ∧ serialOutput notice info (log r) = [13, 10] ++ (answerLine ++ [10]) := by
  have hparse : parseCmd s.monitorMode question = .dumpHuman := by
    rw [parseCmd, if_neg fun h => absurd h.2 (by decide)]
    decide
  have hreceive := hb.receive (fun x hx => (question_plain x hx).1) 10
  rw [if_neg (by decide), if_pos (.inr rfl)] at hreceive
  simp only [receiveChar, hreceive, processCmd, hparse]
  exact ⟨rfl, rfl⟩

theorem Link.OnTime.dongleTurn (h : l.OnTime) (rx : Option (Nat × Packet)) (canGet : Bool) (env : SendEnv)
    (info : RxInfo) : (l.dongleTurn notice rx canGet env info).OnTime := by
  obtain ⟨harriving, hphase⟩ := h
  rcases Link.dongleTurn_cases notice rx canGet env info l with hturn | ⟨c, cs, hto, hturn⟩
  · rw [hturn]
    refine ⟨harriving, ?_⟩
    cases hphase with
    | unasked hstate hto hbuffer => exact .unasked hstate hto (by rwa [receivePacket_buffer])
    | asked hstate came left hsplit hto hbuffer => exact .asked hstate came left hsplit hto (by rwa [receivePacket_buffer])
    | answered hto hmode hanswer =>
      refine .answered hto ((receivePacket_monitorMode _ _).trans hmode) (hanswer.imp_right ?_)
      rintro ⟨hstate, before, behind, hin⟩
      refine ⟨hstate, before, behind ++ serialOutput notice info (log (receivePacket l.dongle rx)), ?_⟩
      rw [Link.unread, ← List.append_assoc]
      exact hin.append _
  · cases hphase with
    | unasked _ hnone _ => rw [hto] at hnone; cases hnone
    | answered hnone _ _ => rw [hto] at hnone; cases hnone
    | asked hstate came left hsplit hleft hbuffer =>
      rw [← receivePacket_buffer l.dongle rx] at hbuffer
      have hmem : ∀ x ∈ came, x ∈ question := fun x hx => hsplit ▸ List.mem_append_left left hx
      have hreceive := hbuffer.receive (fun x hx => (question_plain x (hmem x hx)).1) c
      have hroom : came.length < CMD_MAXLEN := by
        have hlen := congrArg List.length hsplit
        rw [List.length_append] at hlen
        exact Nat.lt_of_le_of_lt (hlen ▸ Nat.le_add_right _ _) (by decide)
      rw [if_neg (Nat.ne_of_lt hroom)] at hreceive
      rw [hto] at hleft
      rw [hturn]
      refine ⟨harriving, ?_⟩
      rcases List.cons_eq_append_iff.mp hleft with ⟨rfl, hend⟩ | ⟨left, rfl, hcs⟩
      · -- The line is complete.
        obtain ⟨rfl, rfl⟩ := List.cons.inj hend
        rw [List.append_nil] at hsplit
        obtain ⟨hmode, htext⟩ := receiveChar_question notice info (hsplit ▸ hbuffer) env
        refine .answered rfl hmode (hstate.symm.imp_right fun hwaits => ⟨hwaits, ?_⟩)
        refine ⟨bytesOf l.thread.arriving ++ (l.toBridge ++
          (serialOutput notice info (log (receivePacket l.dongle rx)) ++ [13])) ++ [10], [], ?_, ?_⟩
        · simp only [Link.unread, htext, List.append_assoc]
          rfl
        · rw [List.getLast?_concat]
          exact fun x hx => (Option.some.inj hx).symm
      · obtain ⟨hlf, hcr⟩ : c ≠ 10 ∧ c ≠ 13 := by
          have hplain := question_plain c (hsplit ▸ List.mem_append_right came List.mem_cons_self)
          exact ⟨hplain.2.1, hplain.2.2.1⟩
        rw [if_neg (not_or.mpr ⟨hcr, hlf⟩)] at hreceive
        refine .asked hstate (came ++ [c]) left (by rw [hsplit, List.append_assoc]; rfl) hcs ?_
        simp only [receiveChar, hreceive]
        exact hbuffer.append hroom c

theorem Link.OnTime.threadTurn (h : l.OnTime) (openRet : Int) {accepted : Nat} (haccepted : question.length < accepted) :
    (l.threadTurn decode openRet accepted).OnTime := by
  have ⟨hpunctual, hphase⟩ := h
  have hwhole : writeString (ascii ":dump_human\n") accepted = (1, question ++ [10]) := by
    have htake : (ascii ":dump_human\n").take accepted = question ++ [10] := List.take_of_length_le haccepted
    rw [writeString, htake]
    exact if_neg (not_not.mpr rfl) ▸ rfl
  by_cases hone : l.thread.state = 1
  · cases hphase with
    | unasked hstate hto hbuffer =>
      simp only [Link.threadTurn, SerialThread.turn, SerialThread.writes, hone, if_true, hwhole]
      exact ⟨hpunctual, .asked (.inl rfl) [] question rfl (by rw [hto]; rfl) hbuffer⟩
    | asked hstate => omega
    | answered _ _ hanswer => omega
  · rcases Link.threadTurn_reads decode hone openRet accepted with hsame | ⟨a, t, hturn, hnext⟩
    · rwa [hsame]
    · rw [hnext]
      cases hphase with
      | unasked hstate hto hbuffer =>
        rw [SerialThread.turn, show l.thread.state = 0 by omega] at hturn
        obtain rfl := Option.some.inj hturn
        split
        · exact ⟨hpunctual, .unasked hstate hto hbuffer⟩
        · exact ⟨hpunctual, .unasked (by simp) hto hbuffer⟩
      | asked hstate came left hsplit hto hbuffer =>
        obtain ⟨hstate', harriving'⟩ := turn_punctual decode a hstate hpunctual hturn
        exact ⟨harriving', .asked hstate' came left hsplit hto hbuffer⟩
      | answered hto hmode hanswer =>
        obtain ⟨-, harriving'⟩ := turn_punctual decode a (hanswer.symm.imp_left (·.1)) hpunctual hturn
        refine ⟨harriving', .answered hto hmode ?_⟩
        rcases hanswer with hlistens | ⟨hwaits, before, behind, hin⟩
        · exact .inl (turn_listening decode hlistens hturn)
        · obtain ⟨n, s, harriving⟩ := hpunctual
          rw [Link.unread, harriving, bytesOf_afterTimeouts] at hin
          rcases turn_answer decode a hwaits harriving hin with
            ⟨hnone, -⟩ | ⟨t', piece, n', s', hsome, -, -, hleft, -, hnow⟩
          · rw [hturn] at hnone
            cases hnone
          · obtain rfl := Option.some.inj (hturn.symm.trans hsome)
            rcases hnow with ⟨before', -, hfront⟩ | ⟨hread, -⟩
            · refine (turn_punctual decode a (.inl hwaits) ⟨n, s, harriving⟩ hturn).1.symm.imp_right fun hstate' => ?_
              exact ⟨hstate', before', behind, by rwa [Link.unread, hleft, bytesOf_afterTimeouts]⟩
            · exact .inl hread

theorem Link.Same.phase {l' : Link} (hsame : l.Same l') 
    (hunread : l.thread.state ≠ 0 → ∃ more, l'.unread = l.unread ++ more)
    (h : l.Phase) : l'.Phase := by
  obtain ⟨hmode, hbuffer, hto, hstate⟩ := hsame
  cases h with
  | unasked h₁ h₂ h₃ => exact .unasked (hstate ▸ h₁) (hto ▸ h₂) (hbuffer ▸ h₃)
  | asked h₁ came left hsplit h₂ h₃ => exact .asked (hstate ▸ h₁) came left hsplit (hto ▸ h₂) (hbuffer ▸ h₃)
  | answered h₁ h₂ h₃ =>
    refine .answered (hto ▸ h₁) (hmode ▸ h₂) ?_
    rw [hstate]
    refine h₃.imp_right ?_
    rintro ⟨hwaits, before, behind, hin⟩
    obtain ⟨more, hmore⟩ := hunread (by omega)
    exact ⟨hwaits, before, behind ++ more, hmore ▸ hin.append more⟩

theorem Link.deliver_punctual (h : Punctual l.thread.arriving) : Punctual (l.deliver false).thread.arriving := by
  rw [Link.deliver]
  cases l.toBridge with
  | nil => exact h
  | cons c cs => exact h.byte c

theorem Link.OnTime.step (h : l.OnTime) {st : LinkStep} (hst : l.Fine st) : (l.step decode notice st).OnTime := by
  obtain ⟨hcalm, hwrites⟩ := hst
  have hprinted (isr : Firmware PUnit) : (l.printed notice isr).OnTime := by
    refine ⟨h.arriving, (l.same_printed notice isr).phase (fun _ => ⟨serialOutput notice ⟨0, 0⟩ (log isr), ?_⟩) h.phase⟩
    rw [Link.unread, Link.printed, ← List.append_assoc]
    rfl
  cases st with
  | dongle rx canGet env info => exact h.dongleTurn notice rx canGet env info
  | tmr0 =>
    obtain ⟨hmode, hbuffer⟩ := tmr0Isr_same l.dongle
    refine ⟨h.arriving, Link.Same.phase (l := l) ⟨hmode, hbuffer, rfl, rfl⟩
      (fun _ => ⟨serialOutput notice ⟨0, 0⟩ (log (tmr0Isr l.dongle)), ?_⟩) h.phase⟩
    rw [Link.unread, Link.step, ← List.append_assoc]
    rfl
  | kbi4 => exact hprinted dongleKbi4Isr
  | kbi7 => exact hprinted dongleKbi7Isr
  | deliver late =>
    cases hcalm
    rw [Link.step]
    split
    · exact h
    · obtain ⟨hsame, hunread⟩ := l.deliver_same false
      exact ⟨Link.deliver_punctual h.arriving, hsame.phase (fun _ => ⟨[], by rw [hunread, List.append_nil]⟩) h.phase⟩
  | lose =>
    rw [Link.step]
    split
    · next hclosed =>
      obtain ⟨hsame, -⟩ := l.lose_same
      refine ⟨?_, hsame.phase (fun hopen => absurd hclosed hopen) h.phase⟩
      have hpunctual := h.arriving
      rw [Link.lose]
      split
      · exact hpunctual
      · next e es harriving => exact (harriving ▸ hpunctual).tail
    · exact h
  | timeout =>
    obtain ⟨hsame, hunread⟩ := l.arrive_same (e := .timeout) rfl
    exact ⟨h.arriving.timeout hcalm, hsame.phase (fun _ => ⟨[], hunread.trans (List.append_nil _).symm⟩) h.phase⟩
  | interrupted | drop | failed => cases hcalm
  | thread openRet accepted => exact h.threadTurn decode openRet hwrites

/-- **The handshake completes**: after any steps in which nothing fails, with the
interrupts between the turns, once the question has been taken and all that was
printed has arrived, the dongle dumps in readable form, and as many turns as bytes
and timeouts have arrived let the bridge listen. -/
theorem handshake_completes (h : l.Starts) {sts : List LinkStep} (hsts : Guarded (Link.step decode notice) Link.Fine l sts)
    (hwrote : 2 ≤ (run (Link.step decode notice) l sts).thread.state)
    (hto : (run (Link.step decode notice) l sts).toDongle = [])
    (hfrom : (run (Link.step decode notice) l sts).toBridge = []) {as : List PortAnswers}
    (has : (run (Link.step decode notice) l sts).thread.arriving.length ≤ as.length) :
    (run (Link.step decode notice) l sts).dongle.monitorMode = DUMP_HUMAN ∧
      ((run (Link.step decode notice) l sts).thread.run decode as).state = 3 := by
  have hend : (run (Link.step decode notice) l sts).OnTime :=
    Guarded.invariant (fun l st h hst => h.step decode notice hst) h.onTime hsts
  generalize run (Link.step decode notice) l sts = l' at *
  obtain ⟨⟨n, s, harriving⟩, hphase⟩ := hend
  cases hphase with
  | unasked hstate => omega
  | asked _ _ left _ hleft =>
    rw [hto] at hleft
    exact absurd hleft.symm (List.append_ne_nil_of_right_ne_nil left (List.cons_ne_nil 10 []))
  | answered _ hmode hanswer =>
    refine ⟨hmode, run_answer decode (hanswer.imp_right ?_)⟩
    rintro ⟨hwaits, before, behind, hin⟩
    rw [harriving, length_afterTimeouts] at has
    rw [Link.unread, hfrom, List.append_nil, harriving, bytesOf_afterTimeouts] at hin
    exact ⟨hwaits, before, behind, n, s, harriving, has, hin⟩

end

theorem fine_thread (l : Link) : l.Fine (.thread 1 12) := ⟨trivial, (by decide : question.length < 12)⟩

theorem sampleSteps_fine : Guarded (Link.step latin1 []) Link.Fine sampleLink sampleSteps := by
  have hasks : Guarded (Link.step latin1 []) Link.Fine sampleLink (List.replicate 2 (.thread 1 12)) :=
    .of_forall fun st hst l => List.eq_of_mem_replicate hst ▸ fine_thread l
  have hwaits : bytesOf (run (Link.step latin1 []) sampleLink (List.replicate 2 (.thread 1 12))).thread.arriving = [] := by
    decide +kernel
  refine Guarded.append.mpr ⟨Guarded.append.mpr ⟨Guarded.append.mpr ⟨hasks, ⟨hwaits, trivial⟩, trivial⟩, ?_⟩, ?_⟩
  · exact .of_forall fun st hst l => List.eq_of_mem_replicate hst ▸ ⟨trivial, trivial⟩
  · exact .of_forall fun st hst l => List.eq_of_mem_replicate hst ▸ ⟨rfl, trivial⟩

theorem handshake_completes_sample :
    (run (Link.step latin1 []) sampleLink sampleSteps).dongle.monitorMode = DUMP_HUMAN ∧
      ((run (Link.step latin1 []) sampleLink sampleSteps).thread.run latin1 (turns 58)).state = 3 :=
  handshake_completes latin1 [] sampleLink_starts sampleSteps_fine (by decide +kernel) (by decide +kernel)
    (by decide +kernel) (by decide +kernel)

end OflMetrics
