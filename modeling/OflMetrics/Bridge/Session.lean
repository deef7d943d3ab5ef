/-
A session of the bridge, from its start on: the handshake, and the packets after
it.

The bridge asks while the dongle goes on receiving; what the dongle prints in
between is on the line before the bridge listens. When nothing fails, only plain
frames are received and the interrupts print between two turns of the dongle's
loop, the packets broadcast, with those of the lines on their way, are the packets
received since the dongle began to dump (`session_delivers`): the handshake loses
none of them, and lets none of the earlier ones through.
-/
import OflMetrics.Bridge.Delivery

namespace OflMetrics

open Embed Embed.CString Embed.Traced

section

variable (decode : List UInt8 → List Char) (notice : List UInt8)

/-- What the frames say that are received while the dongle dumps in readable form. -/
def dumped (l : Link) : List LinkStep → List BridgePacket
  | [] => []
  | st :: sts => (if l.dongle.monitorMode = DUMP_HUMAN then st.reports else []) ++ dumped (l.step decode notice st) sts

/-- How far the session is, when `told` was received since the dongle dumps. -/
inductive Link.Serves (l : Link) (told : List BridgePacket) : Prop where
  | asking (asking : l.Asking) (onTime : l.OnTime) (broadcast : l.thread.broadcast = []) (told : told = [])
  | answered (toDongle : l.toDongle = []) (mode : l.dongle.monitorMode = DUMP_HUMAN) (state : l.thread.state = 2)
    (arriving : Punctual l.thread.arriving) (broadcast : l.thread.broadcast = []) (before behind : List UInt8)
    (answer : AnswerAt before behind l.unread) (front : NoAnswer before) (tells : Tells decode behind told)
  | listening (listening : l.Listening) (heard : l.heard decode = told)

end

variable {decode : List UInt8 → List Char} (notice : List UInt8) {l : Link}

/-- Only a thread that listens broadcasts. -/
theorem turn_broadcast {t t' : SerialThread} {a : PortAnswers} (ht : t.state ≤ 2) (h : t.turn decode a = some t') :
    t'.broadcast = t.broadcast := by
  rcases (by omega : t.state = 0 ∨ t.state = 1 ∨ t.state = 2) with hstate | hstate | hstate
  · rw [SerialThread.turn, hstate] at h
    obtain rfl := Option.some.inj h
    split <;> rfl
  · rw [SerialThread.turn, hstate] at h
    obtain rfl := Option.some.inj h
    split <;> rfl
  · rw [SerialThread.turn, hstate] at h
    obtain ⟨r, -, rfl⟩ := Option.map_eq_some_iff.mp h
    rfl

theorem Link.threadTurn_broadcast (hstate : l.thread.state ≤ 2) (openRet : Int) (accepted : Nat) :
    (l.threadTurn decode openRet accepted).thread.broadcast = l.thread.broadcast := by
  rw [Link.threadTurn]
  split
  · rfl
  · next t hturn => exact turn_broadcast hstate hturn

/-- While the bridge asks, it broadcasts nothing. -/
theorem Link.Asking.broadcast (h : l.Asking) (st : LinkStep) :
    (l.step decode notice st).thread.broadcast = l.thread.broadcast := by
  have hother (hst : st.IsOther) := (l.step_other decode notice hst).2.1
  cases st with
  | dongle | interrupted | drop => rfl
  | thread openRet accepted =>
    have hstate : l.thread.state ≤ 2 := by
      rcases h.asking with h | h
      · exact Nat.le_succ_of_le h.1
      · exact Nat.le_of_eq h.1
    exact Link.threadTurn_broadcast hstate openRet accepted
  | _ => exact hother trivial

/-- A bridge that asks has not asked. -/
theorem Link.Asking.not_asked (h : l.Asking) {l' : Link} (hto : l'.toDongle = l.toDongle)
    (hstate : l'.thread.state = l.thread.state) : ¬ l'.Asked := by
  intro hasked
  have hempty := hto ▸ hasked.toDongle
  have hwaits := hstate ▸ hasked.waits
  rcases h.asking with ⟨hle, -⟩ | ⟨-, cs, hcs, -⟩
  · omega
  · rw [hempty] at hcs
    exact absurd hcs.symm (List.append_ne_nil_of_right_ne_nil cs (List.cons_ne_nil 10 []))

/-- Where the question ends, the answer is printed. -/
theorem Link.Asking.answers (h : l.Asking) (hon : l.OnTime) (hbroadcast : l.thread.broadcast = []) {st : LinkStep}
    (hst : l.Calm st) (hnot : ¬ (l.step decode notice st).Asking) : (l.step decode notice st).Serves decode [] := by
  have hasked := (Link.keeps_step decode notice (.inl h) hst.lossless).resolve_left hnot
  have hother (hst : st.IsOther) : (l.step decode notice st).Serves decode [] := by
    obtain ⟨hsame, -⟩ := l.step_other decode notice hst
    exact absurd hasked (h.not_asked hsame.toDongle hsame.state)
  cases st with
  | interrupted | drop => cases hst
  | thread openRet accepted => exact absurd (h.threadTurn decode openRet accepted) hnot
  | dongle rx canGet env info =>
    rcases Link.dongleTurn_cases notice rx canGet env info l with hturn | ⟨c, cs, hto, hturn⟩
    · rw [Link.step, hturn] at hasked
      exact absurd hasked (h.not_asked rfl rfl)
    · rw [Link.step, hturn] at hasked ⊢
      have hend : cs = [] := hasked.toDongle
      subst hend
      cases hon.phase with
      | unasked _ hnone _ => rw [hto] at hnone; cases hnone
      | answered hnone _ _ => rw [hto] at hnone; cases hnone
      | asked hstate came left hsplit hleft hbuffer =>
        rw [hto] at hleft
        obtain ⟨rfl, rfl⟩ : left = [] ∧ c = 10 := by
          rcases List.cons_eq_append_iff.mp hleft with ⟨rfl, hten⟩ | ⟨left', -, hnil⟩
          · exact ⟨rfl, (List.cons.inj hten).1.symm⟩
          · exact absurd hnil.symm (List.append_ne_nil_of_right_ne_nil left' (List.cons_ne_nil 10 []))
        rw [List.append_nil] at hsplit
        rw [← receivePacket_buffer l.dongle rx] at hbuffer
        obtain ⟨hmode, htext⟩ := receiveChar_question notice info (hsplit ▸ hbuffer) env
        have hwaits : l.thread.state = 2 := by
          rcases h.asking with ⟨hle, -⟩ | ⟨hwaits, -⟩
          · omega
          · exact hwaits
        have hend : NoAnswer (ascii "\r" ++ [10]) := NoAnswer.line (by decide)
        refine .answered rfl hmode hwaits hon.arriving hbroadcast
          (l.unread ++ serialOutput notice info (log (receivePacket l.dongle rx)) ++ (ascii "\r" ++ [10])) [] ⟨?_, ?_⟩
          ((h.unread.append (noAnswer_receivePacket notice info h.mode rx)).append hend) tells_nil
        · simp only [Link.unread, htext, List.append_assoc]
          rfl
        · rw [← List.append_assoc, List.getLast?_concat]
          exact fun x hx => (Option.some.inj hx).symm
  | _ => exact hother trivial

/-- A turn while the answer is on its way. -/
theorem Link.answered_threadTurn {told : List BridgePacket} (hto : l.toDongle = [])
    (hmode : l.dongle.monitorMode = DUMP_HUMAN) (hstate : l.thread.state = 2) (harriving : Punctual l.thread.arriving)
    (hbroadcast : l.thread.broadcast = []) {before behind : List UInt8} (hanswer : AnswerAt before behind l.unread)
    (hfront : NoAnswer before) (htells : Tells decode behind told) (openRet : Int) (accepted : Nat) :
    (l.threadTurn decode openRet accepted).Serves decode told := by
  have hne : l.thread.state ≠ 1 := by omega
  rcases Link.threadTurn_reads decode hne openRet accepted with hsame | ⟨a, t, hturn, hnext⟩
  · rw [hsame]
    exact .answered hto hmode hstate harriving hbroadcast before behind hanswer hfront htells
  · obtain ⟨n, s, harriving⟩ := harriving
    rw [Link.unread, harriving, bytesOf_afterTimeouts] at hanswer
    rcases turn_answer decode a hstate harriving hanswer with
      ⟨hnone, -⟩ | ⟨t', piece, n', s', hsome, rfl, -, hleft, hquiet, hnow⟩
    · rw [hturn] at hnone
      cases hnone
    · obtain rfl := Option.some.inj (hturn.symm.trans hsome)
      rw [hnext]
      rcases hnow with ⟨before', rfl, hanswer'⟩ | ⟨hread, rfl⟩
      · -- What was read has no answer in it.
        have hwaits : t.state = 2 := by
          obtain ⟨piece', hpiece, hnow⟩ := turn_wait decode hstate hturn
          rw [harriving, hleft, bytesOf_afterTimeouts, bytesOf_afterTimeouts, List.append_cancel_right_eq] at hpiece
          rcases hnow with hwaits | ⟨-, hin⟩
          · exact hwaits
          · rw [← hpiece] at hin
            exact absurd (hin.trans (List.prefix_append piece before').isInfix) hfront.absent
        refine .answered hto hmode hwaits ⟨n', s', hleft⟩ (hquiet.trans hbroadcast) before' behind ?_
          (hfront.of_suffix (List.suffix_append piece before')) htells
        rwa [Link.unread, hleft, bytesOf_afterTimeouts]
      · have hunread : Link.unread { l with thread := t } = s' ++ l.toBridge := by
          rw [Link.unread, hleft, bytesOf_afterTimeouts]
        refine .listening ⟨hmode, hto, hread, ⟨n', s', hleft⟩, hunread ▸ htells.1⟩ ?_
        rw [Link.heard, hunread, htells.2]
        exact congrArg (· ++ told) (hquiet.trans hbroadcast)

theorem Link.Starts.serves (h : l.Starts) (hmode : l.dongle.monitorMode ≠ DUMP_HUMAN) : l.Serves decode [] := by
  obtain ⟨rxBuf, hthread⟩ := h.thread
  exact .asking (h.asking hmode) h.onTime (by rw [hthread]; rfl) rfl

theorem Link.Serves.step (hd : ReadsAscii decode) {told : List BridgePacket} (h : l.Serves decode told) {st : LinkStep}
    (hfine : l.Fine st) (hplain : st.Plain) :
    (l.step decode notice st).Serves decode
      (told ++ if l.dongle.monitorMode = DUMP_HUMAN then st.reports else []) := by
  cases h with
  | asking hasking hon hbroadcast htold =>
    subst htold
    rw [if_neg hasking.mode, List.append_nil]
    by_cases hnext : (l.step decode notice st).Asking
    · exact .asking hnext (hon.step decode notice hfine) ((hasking.broadcast notice st).trans hbroadcast) rfl
    · exact hasking.answers notice hon hbroadcast hfine.1 hnext
  | answered hto hmode hstate harriving hbroadcast before behind hanswer hfront htells =>
    rw [if_pos hmode]
    by_cases hthread : ∃ openRet accepted, st = .thread openRet accepted
    · obtain ⟨openRet, accepted, rfl⟩ := hthread
      rw [show (LinkStep.thread openRet accepted).reports = [] from rfl, List.append_nil]
      exact Link.answered_threadTurn hto hmode hstate harriving hbroadcast hanswer hfront htells openRet accepted
    · have hopen : l.thread.state ≠ 0 := by omega
      obtain ⟨text, ⟨hlines, hpackets⟩, hsame, harriving', hunread, hquiet⟩ :=
        Link.step_dumping notice hd hmode hto hopen hfine.1 hplain fun openRet accepted he =>
          hthread ⟨openRet, accepted, he⟩
      obtain ⟨hwhole, hall⟩ := htells.1.append decode hlines
      refine .answered (hsame.toDongle.trans hto) (hsame.mode.trans hmode) (hsame.state.trans hstate) (harriving' harriving)
        (hquiet.trans hbroadcast) before (behind ++ text) (hunread ▸ hanswer.append text) hfront ⟨hwhole, ?_⟩
      rw [hall, htells.2, hpackets]
  | listening hlistening hheard =>
    rw [if_pos hlistening.mode]
    obtain ⟨hnext, hall⟩ := hlistening.step notice hd hfine.1 hplain
    exact .listening hnext (hall.trans (congrArg (· ++ st.reports) hheard))

/-- What the bridge has broadcast, and will of the lines on their way. -/
theorem Link.Serves.heard_eq {told : List BridgePacket} (h : l.Serves decode told) :
    (l.thread.state = 3 → l.heard decode = told) ∧ (l.thread.state ≠ 3 → l.thread.broadcast = []) := by
  cases h with
  | asking hasking _ hbroadcast _ =>
    refine ⟨fun hstate => ?_, fun _ => hbroadcast⟩
    rcases hasking.asking with ⟨hle, -⟩ | ⟨hwaits, -⟩ <;> omega
  | answered _ _ hwaits _ hbroadcast => exact ⟨fun hstate => by omega, fun _ => hbroadcast⟩
  | listening hlistening hheard => exact ⟨fun _ => hheard, fun hstate => absurd hlistening.state hstate⟩

/-- A dongle that dumps goes on dumping. -/
theorem Link.Serves.dumps {told : List BridgePacket} (h : l.Serves decode told) (hmode : l.dongle.monitorMode = DUMP_HUMAN)
    (st : LinkStep) : (l.step decode notice st).dongle.monitorMode = DUMP_HUMAN := by
  have hto : l.toDongle = [] := by
    cases h with
    | asking hasking => exact absurd hmode hasking.mode
    | answered hto => exact hto
    | listening hlistening => exact hlistening.toDongle
  have hother (hst : st.IsOther) : (l.step decode notice st).dongle.monitorMode = DUMP_HUMAN :=
    (l.step_other decode notice hst).1.mode.trans hmode
  have hturn (rx : Option (Nat × Packet)) (canGet : Bool) (env : SendEnv) (info : RxInfo) :
      (l.dongleTurn notice rx canGet env info).dongle.monitorMode = DUMP_HUMAN := by
    rcases Link.dongleTurn_cases notice rx canGet env info l with hturn | ⟨c, cs, hcons, -⟩
    · rw [hturn]
      exact (receivePacket_monitorMode l.dongle rx).trans hmode
    · rw [hto] at hcons
      cases hcons
  cases st with
  | dongle rx canGet env info => exact hturn rx canGet env info
  | interrupted rx canGet env info isrs => exact hturn rx canGet env info
  | drop => exact hmode
  | thread openRet accepted =>
    rw [Link.step, Link.threadTurn]
    split <;> exact hmode
  | _ => exact hother trivial

/-- What was received since the dongle dumps, after any such steps. -/
theorem Link.Serves.run (hd : ReadsAscii decode) {sts : List LinkStep} :
    ∀ {l : Link} {told : List BridgePacket}, l.Serves decode told →
      Guarded (Link.step decode notice) (fun l st => l.Fine st ∧ st.Plain) l sts →
      (Embed.run (Link.step decode notice) l sts).Serves decode (told ++ dumped decode notice l sts) := by
  induction sts with
  | nil => exact fun {l told} h _ => (List.append_nil told).symm ▸ h
  | cons st sts ih =>
    intro l told h hsts
    obtain ⟨⟨hfine, hplain⟩, hsts⟩ := hsts
    have hnext := h.step notice hd hfine hplain
    rw [dumped, ← List.append_assoc]
    exact ih hnext hsts

/-- **A session delivers every packet once**: from a start in which the dongle does
not dump in readable form, after any steps in which nothing fails and only plain
frames are received, with the interrupts between the turns, the packets that a
listening bridge has broadcast, and will of the lines on their way, are those
received since the dongle dumps; and before it listens it has broadcast none. -/
theorem session_delivers (hd : ReadsAscii decode) (h : l.Starts) (hmode : l.dongle.monitorMode ≠ DUMP_HUMAN)
    {sts : List LinkStep} (hsts : Guarded (Link.step decode notice) (fun l st => l.Fine st ∧ st.Plain) l sts) :
    let l' := run (Link.step decode notice) l sts
    (l'.thread.state = 3 → l'.heard decode = dumped decode notice l sts) ∧
      (l'.thread.state ≠ 3 → l'.thread.broadcast = []) := by
  have hstart : l.Serves decode [] := h.serves hmode
  have hend := hstart.run notice hd hsts
  rw [List.nil_append] at hend
  exact hend.heard_eq

/-- The handshake, and a frame behind it. -/
def sessionSteps (pk : Packet) (n : Nat) : List LinkStep :=
  sampleSteps ++ (List.replicate 58 (.thread 1 12) ++ frameSteps pk n ++ List.replicate n (.thread 1 12))

theorem sampleSteps_frames : ∀ st ∈ sampleSteps, st.frames = [] := by
  simp only [sampleSteps, List.mem_append, List.mem_replicate, List.mem_singleton]
  rintro st (((⟨-, rfl⟩ | rfl) | ⟨-, rfl⟩) | ⟨-, rfl⟩) <;> rfl

/-- Nothing fails in it, and no other frame is received. -/
theorem sessionSteps_fine (pk : Packet) (n : Nat) :
    Guarded (Link.step latin1 []) (fun l st => l.Fine st ∧ ∀ pk' ∈ st.frames, pk' = pk) sampleLink (sessionSteps pk n) := by
  have hturn (l : Link) : l.Fine (.thread 1 12) ∧ ∀ pk' ∈ (LinkStep.thread 1 12).frames, pk' = pk :=
    ⟨fine_thread l, fun pk' hpk' => absurd hpk' List.not_mem_nil⟩
  refine Guarded.append.mpr ⟨sampleSteps_fine.imp fun st hst l hfine => ⟨hfine, ?_⟩, .of_forall fun st hst l => ?_⟩
  · exact fun pk' hpk' => absurd (sampleSteps_frames st hst ▸ hpk') List.not_mem_nil
  · simp only [List.mem_append] at hst
    rcases hst with (hst | hst) | hst
    · exact List.eq_of_mem_replicate hst ▸ hturn l
    · exact frameSteps_fine n hst l
    · exact List.eq_of_mem_replicate hst ▸ hturn l

theorem session_delivers_sample :
    let l' := run (Link.step latin1 []) sampleLink (sessionSteps plainPacket 60)
    (l'.thread.state = 3 → l'.heard latin1 = dumped latin1 [] sampleLink (sessionSteps plainPacket 60)) ∧
      (l'.thread.state ≠ 3 → l'.thread.broadcast = []) := by
  refine session_delivers [] latin1_readsAscii sampleLink_starts (by decide) ?_
  exact (sessionSteps_fine plainPacket 60).imp fun st _ l hst => ⟨hst.1, fun pk hpk => hst.2 pk hpk ▸ plainPacket_plain⟩

end OflMetrics
