/-
From the edges of a radio signal to the lines of the omniradio's console.

The interrupt records and decodes while `main` prints; the drain loop leaves alone
what the interrupt works on (`SameEdges`), so what is decoded depends on the edges
only (`runMessages_eq`). Of a series of HomeEasy bursts, however the steps of the
loop come between their edges, as long as each message is printed before the next
one is complete, every burst makes one line; the first is of question marks, and
each later one is the burst shifted by a bit (`bursts_printed`). A burst ends with
a low that is no start mark's (`Burst.Ends`), and highs and lows are what the
interrupt takes for them.
-/
import OflMetrics.Omniradio.Drain
import OflMetrics.Omniradio.MsgSlots

namespace OflMetrics

open Embed Embed.Traced

/-! ## The messages of a run -/

/-- The message an edge completes. -/
def completes (s : Receiver) (c : UInt16) : List (List Char) :=
  if s.record = 2 then [ringText ((capture s c).pushed 1).ring] else []

/-- The messages a series of edges completes. -/
def storedBy (s : Receiver) : List UInt16 → List (List Char)
  | [] => []
  | c :: cs => completes s c ++ storedBy (edgeStep s c) cs

/-- The messages a run of the firmware completes. -/
def runMessages (m : Omniradio) : List OmniStep → List (List Char)
  | [] => []
  | .edge c :: steps => completes m.rx c ++ runMessages (omniStep m (.edge c)) steps
  | .drain :: steps => runMessages (omniStep m .drain) steps

/-- The edges of a run. -/
def edgesOf (steps : List OmniStep) : List UInt16 :=
  steps.filterMap fun | .edge c => some c | .drain => none

/-- No message completes while another waits. -/
def OneWaits (m : Omniradio) : OmniStep → Prop
  | .edge _ => m.rx.record = 2 → m.rx.msgCnt = 0
  | .drain => True

instance (m : Omniradio) : ∀ step, Decidable (OneWaits m step)
  | .edge _ => inferInstanceAs (Decidable (_ → _))
  | .drain => .isTrue trivial

/-- What an edge works on is the same. -/
structure SameEdges (s s' : Receiver) : Prop where
  transCur : s.transCur = s'.transCur
  bEdgeDirection : s.bEdgeDirection = s'.bEdgeDirection
  record : s.record = s'.record
  ring : s.ring = s'.ring

variable {s s' : Receiver}

theorem SameEdges.capture (h : SameEdges s s') (c : UInt16) :
    SameEdges (capture s c) (capture s' c) ∧ (OflMetrics.capture s c).transPrev = (OflMetrics.capture s' c).transPrev := by
  obtain ⟨hcur, hdir, hrec, hring⟩ := h
  refine ⟨⟨?_, ?_, by rw [capture_record, capture_record, hrec], by rw [capture_ring, capture_ring, hring]⟩, ?_⟩
  · simp only [OflMetrics.capture, hdir]
    split <;> [rfl; split <;> [rfl; exact hcur]]
  · simp only [OflMetrics.capture, hdir]
    split <;> [rfl; split <;> rfl]
  · rw [capture_transPrev, capture_transPrev, hcur]

theorem SameEdges.pushed (h : SameEdges s s') (r : UInt8) : SameEdges (s.pushed r) (s'.pushed r) :=
  ⟨h.transCur, h.bEdgeDirection, rfl, by rw [pushed_ring, pushed_ring, h.ring, h.transCur]⟩

theorem SameEdges.completes (h : SameEdges s s') (c : UInt16) : completes s c = completes s' c := by
  rw [OflMetrics.completes, OflMetrics.completes, h.record, ((h.capture c).1.pushed 1).ring]

theorem SameEdges.edge (h : SameEdges s s') (c : UInt16) : SameEdges (edgeStep s c) (edgeStep s' c) := by
  obtain ⟨hcap, hprev⟩ := h.capture c
  have hmark : StartMark (OflMetrics.capture s c) ↔ StartMark (OflMetrics.capture s' c) := by
    rw [StartMark, StartMark, hprev, hcap.transCur]
  by_cases h0 : s.record = 0
  · have h0' : s'.record = 0 := h.record.symm.trans h0
    by_cases hs : StartMark (OflMetrics.capture s c)
    · rw [edgeStep, edgeStep, kbi7Isr_start h0 hs, kbi7Isr_start h0' (hmark.mp hs)]
      exact hcap.pushed 127
    · rw [edgeStep, edgeStep, kbi7Isr_idle h0 hs, kbi7Isr_idle h0' fun hs' => hs (hmark.mpr hs')]
      exact hcap
  · have h0' : s'.record ≠ 0 := fun he => h0 (h.record.trans he)
    by_cases h2 : s.record = 2
    · have hpushed := hcap.pushed 1
      rw [edgeStep, edgeStep, kbi7Isr_last h2, kbi7Isr_last (h.record.symm.trans h2)]
      exact ⟨hpushed.transCur, hpushed.bEdgeDirection, rfl, congrArg ringReset hpushed.ring⟩
    · have h2' : s'.record ≠ 2 := fun he => h2 (h.record.trans he)
      rw [edgeStep, edgeStep, kbi7Isr_record h0 h2, kbi7Isr_record h0' h2', h.record]
      exact hcap.pushed _

theorem drainStep_sameEdges (m : Omniradio) : SameEdges (drainStep m).rx m.rx := by
  rw [drainStep]
  split
  · split <;> exact ⟨rfl, rfl, rfl, rfl⟩
  · split <;> exact ⟨rfl, rfl, rfl, rfl⟩

/-- What is decoded depends on the edges only. -/
theorem runMessages_eq (steps : List OmniStep) :
    ∀ {m : Omniradio} {s : Receiver}, SameEdges m.rx s → runMessages m steps = storedBy s (edgesOf steps) := by
  induction steps with
  | nil => exact fun _ => rfl
  | cons step steps ih =>
    intro m s h
    cases step with
    | edge c =>
      have hnext : SameEdges (omniStep m (.edge c)).rx (edgeStep s c) := by
        rw [omniStep_edge]
        dsimp only
        exact h.edge c
      rw [runMessages, ih hnext, h.completes c]
      rfl
    | drain =>
      obtain ⟨hcur, hdir, hrec, hring⟩ := drainStep_sameEdges m
      exact ih ⟨hcur.trans h.transCur, hdir.trans h.bEdgeDirection, hrec.trans h.record, hring.trans h.ring⟩

/-! ## What is printed -/

/-- Of the firmware only what the messages are in counts. -/
theorem DrainInv.congr {m m' : Omniradio} {stored : List (List Char)} (h : DrainInv ⟨m, stored⟩)
    (hcnt : m'.rx.msgCnt = m.rx.msgCnt) (hbuf : m'.rx.msgBuf = m.rx.msgBuf) (hout : m'.out = m.out) :
    DrainInv ⟨m', stored⟩ := by
  have hprinted : Messages.printed ⟨m', stored⟩ = Messages.printed ⟨m, stored⟩ := by
    show m'.out.map (·.2) = m.out.map (·.2)
    rw [hout]
  cases h with
  | drained h hs => exact .drained (hcnt.trans h) (hs.trans hprinted.symm)
  | one h hs =>
    refine .one (hcnt.trans h) ?_
    rw [hprinted]
    simpa only [hbuf] using hs

theorem edgeStep_quiet (h2 : s.record ≠ 2) (c : UInt16) :
    (edgeStep s c).msgBuf = s.msgBuf ∧ (edgeStep s c).msgCnt = s.msgCnt := by
  by_cases h0 : s.record = 0
  · exact edgeStep_idle h0
  · exact (edgeStep_record h0 h2).2.2.2

/-- The edge that completes a message stores it. -/
theorem edgeStep_completes (h2 : s.record = 2) (c : UInt16) :
    (edgeStep s c).msgBuf = storeMessage ((capture s c).pushed 1).ring s.msgCnt.toNat s.msgBuf ∧
      (edgeStep s c).msgCnt = s.msgCnt + 1 := by
  rw [edgeStep, kbi7Isr_last h2]
  exact ⟨rfl, rfl⟩

theorem DrainInv.run {steps : List OmniStep} :
    ∀ {m : Omniradio} {stored : List (List Char)}, DrainInv ⟨m, stored⟩ → Guarded omniStep OneWaits m steps →
      DrainInv ⟨Embed.run omniStep m steps, stored ++ runMessages m steps⟩ := by
  induction steps with
  | nil => exact fun h _ => (List.append_nil _).symm ▸ h
  | cons step steps ih =>
    intro m stored h hok
    cases step with
    | drain => exact ih h.drain hok.2
    | edge c =>
      have hnext : DrainInv ⟨omniStep m (.edge c), stored ++ completes m.rx c⟩ := by
        rw [omniStep_edge]
        by_cases h2 : m.rx.record = 2
        · have hdone := h.complete (hok.1 h2) ((capture m.rx c).pushed 1).ring
          obtain ⟨hbuf, hcnt⟩ := edgeStep_completes h2 c
          rw [messageStep_complete] at hdone
          rw [completes, if_pos h2]
          exact hdone.congr hcnt hbuf rfl
        · obtain ⟨hbuf, hcnt⟩ := edgeStep_quiet h2 c
          rw [completes, if_neg h2, List.append_nil]
          exact h.congr hcnt hbuf rfl
      rw [runMessages, ← List.append_assoc]
      exact ih hnext hok.2

/-! ## Bursts -/

theorem storedBy_append (cs cs' : List UInt16) : ∀ s : Receiver,
    storedBy s (cs ++ cs') = storedBy s cs ++ storedBy (run edgeStep s cs) cs' := by
  induction cs with
  | nil => exact fun _ => rfl
  | cons c cs ih =>
    intro s
    rw [List.cons_append, storedBy, ih, storedBy, run_cons, List.append_assoc]

/-- Nothing is complete while more than two edges are left. -/
theorem storedBy_running (cs : List UInt16) : ∀ {s : Receiver}, cs.length + 3 ≤ s.record.toNat + 1 → storedBy s cs = [] := by
  induction cs with
  | nil => exact fun _ => rfl
  | cons c cs ih =>
    intro s hle
    rw [List.length_cons] at hle
    have h0 : s.record ≠ 0 := fun he => by
      rw [he] at hle
      exact absurd hle (by simp)
    have h2 : s.record ≠ 2 := fun he => by
      rw [he] at hle
      exact absurd hle (by simp)
    have hsub : (edgeStep s c).record.toNat = s.record.toNat - 1 := by
      rw [(edgeStep_running h0 c).1]
      exact UInt8.toNat_sub_of_le _ _ (UInt8.le_iff_toNat_le.mpr (show 1 ≤ s.record.toNat by omega))
    rw [storedBy, completes, if_neg h2, ih (by omega)]
    rfl

/-- The receiver waits for a burst, with the intervals `l` in its ring. -/
structure Rests (s : Receiver) (l : List Int16) : Prop where
  ring : RingIs s.ring l
  short : l.length ≤ 1
  record : s.record = 0
  direction : s.bEdgeDirection = 0

/-- The low of the last pair is not taken for that of a start mark. -/
def Burst.Ends (b : Burst) : Prop := ∀ p ∈ b.pairs.getLast?, ¬ LowPulse 2675 (lowUs p.2)

/-- The end of a recording: the message is complete with the second of the last
four edges, the third goes to the emptied ring. -/
theorem Recording.completes {s₀ : Receiver} {l : List Int16} (hs : Recording s₀ l 3 s) (hl : l.length + 2 ≤ 1024)
    (h lo h' lo' : UInt16) (hend : ¬ LowPulse 2675 (lowUs lo')) :
    ∃ ring, RingIs ring (l ++ [highUs h, lowUs lo]) ∧ storedBy s [h, lo, h', lo'] = [ringText ring] ∧
      Rests (run edgeStep s [h, lo, h', lo']) [highUs h'] := by
  obtain ⟨hrec, hring, hdir, -, -⟩ := hs.high (Nat.le_refl 3) (by omega) h
  have hfirst : OflMetrics.completes s h = [] := if_neg fun he => by
    have hthree := hs.record
    rw [he] at hthree
    exact absurd hthree (by decide)
  rw [storedBy, storedBy, storedBy, storedBy, storedBy, hfirst, run_cons, run_cons, run_cons, run_cons, run_nil]
  generalize edgeStep s h = s₁ at *
  have h2 : s₁.record = 2 := UInt8.toNat_inj.mp hrec
  have hring2 : RingIs ((capture s₁ lo).pushed 1).ring (l ++ [highUs h, lowUs lo]) := by
    rw [pushed_ring, capture_ring]
    exact capture_low_push lo hdir hring (by omega)
  have hlast : (edgeStep s₁ lo).record = 1 ∧ (edgeStep s₁ lo).bEdgeDirection = 0 ∧ RingIs (edgeStep s₁ lo).ring [] := by
    rw [edgeStep, kbi7Isr_last h2]
    exact ⟨rfl, by rw [pushed_bEdgeDirection, capture_low lo hdir], hring2.reset⟩
  have hsecond : OflMetrics.completes s₁ lo = [ringText ((capture s₁ lo).pushed 1).ring] := if_pos h2
  rw [hsecond]
  generalize edgeStep s₁ lo = s₂ at *
  obtain ⟨hrec2, hdir2, hempty⟩ := hlast
  obtain ⟨hrec3, hring3, hdir3, -, -⟩ :=
    edgeStep_record (c := h') (show s₂.record ≠ 0 by rw [hrec2]; decide) (by rw [hrec2]; decide)
  have hthird : OflMetrics.completes s₂ h' = [] := if_neg (by rw [hrec2]; decide)
  have hpushed := hempty.push (capture s₂ h').transCur (show 0 < 1024 by decide)
  rw [← hring3, capture_high h' hdir2] at hpushed
  rw [capture_high h' hdir2] at hdir3
  rw [hrec2] at hrec3
  generalize edgeStep s₂ h' = s₃ at *
  have hidle : s₃.record = 0 := hrec3
  have hfourth : OflMetrics.completes s₃ lo' = [] := if_neg (by rw [hidle]; decide)
  have hnot : ¬ StartMark (capture s₃ lo') := by
    rw [capture_low lo' hdir3]
    exact fun hmark => hend hmark.2
  rw [hthird, hfourth, edgeStep, kbi7Isr_idle hidle hnot]
  refine ⟨_, hring2, rfl, ?_, Nat.le_refl 1, ?_, ?_⟩
  · rw [capture_ring]
    exact hpushed
  · rw [capture_record]
    exact hidle
  · rw [capture_low lo' hdir3]

/-- The last two pairs of a burst. -/
theorem Burst.last_pairs (b : Burst) : ∃ p q, b.pairs.take 63 = b.pairs.take 62 ++ [p] ∧ b.pairs.getLast? = some q ∧
    b.edges = [b.markHigh, b.markLow] ++ (pulses (b.pairs.take 62) ++ [p.1, p.2, q.1, q.2]) := by
  have hlen : b.pairs.length = 64 := b.length_pairs
  obtain ⟨p, q, hpq⟩ : ∃ p q, b.pairs.drop 62 = [p, q] := by
    have htwo : (b.pairs.drop 62).length = 2 := by simp [hlen]
    exact List.length_eq_two.mp htwo
  have hsplit : b.pairs = b.pairs.take 62 ++ [p, q] := by rw [← hpq, List.take_append_drop]
  refine ⟨p, q, ?_, ?_, ?_⟩
  · conv_lhs => rw [hsplit]
    rw [List.take_append]
    simp [hlen]
  · rw [hsplit, List.getLast?_append]
    rfl
  · conv_lhs => rw [Burst.edges, hsplit, pulses_append]
    rfl

/-- A burst completes one message and leaves a short high in the ring. -/
theorem Rests.burst {l : List Int16} (h : Rests s l) (b : Burst) (hends : b.Ends) :
    ∃ ring x, RingIs ring (l ++ [lowUs b.markLow] ++ intervals (b.pairs.take 63)) ∧ storedBy s b.edges = [ringText ring] ∧
      HighPulse x ∧ Rests (run edgeStep s b.edges) [x] := by
  have hlen : b.pairs.length = 64 := b.length_pairs
  have hl := h.short
  obtain ⟨p, q, htake, hlast, hedges⟩ := b.last_pairs
  have hstart := Recording.start h.ring h.short h.record h.direction b.mark
  have hcount : 3 + 2 * (b.pairs.take 62).length = 127 := by simp [hlen]
  rw [← hcount] at hstart
  have hpairs := Recording.pairs (b.pairs.take 62) hstart (by omega) (by simp [hlen]; omega)
  obtain ⟨ring, hring, hstored, hrests⟩ :=
    hpairs.completes (by simp [length_intervals, hlen]; omega) p.1 p.2 q.1 q.2 (hends q hlast)
  have hmark : storedBy s [b.markHigh, b.markLow] = [] := by
    have hfirst : OflMetrics.completes s b.markHigh = [] := if_neg (by rw [h.record]; decide)
    have hidle : (edgeStep s b.markHigh).record = 0 := by
      rw [edgeStep, kbi7Isr_idle h.record (not_startMark_high s b.markHigh h.direction b.mark.1), capture_record, h.record]
    have hsecond : OflMetrics.completes (edgeStep s b.markHigh) b.markLow = [] := if_neg (by rw [hidle]; decide)
    rw [storedBy, storedBy, storedBy, hfirst, hsecond]
    rfl
  have hquiet : storedBy (run edgeStep s [b.markHigh, b.markLow]) (pulses (b.pairs.take 62)) = [] := by
    refine storedBy_running _ ?_
    have hpulses : (pulses (b.pairs.take 62)).length = 124 := by
      have hintervals := length_intervals (b.pairs.take 62)
      rw [List.length_take, hlen] at hintervals
      simp only [intervals, pulses, List.length_flatMap] at hintervals ⊢
      exact hintervals
    rw [hpulses, hstart.record, hcount]
    decide
  refine ⟨ring, highUs q.1, ?_, ?_, (b.pulse q (List.mem_of_getLast? hlast)).1, ?_⟩
  · rw [htake, intervals_append, ← List.append_assoc]
    exact hring
  · rw [hedges, storedBy_append, storedBy_append, hmark, hquiet, hstored]
    rfl
  · rw [hedges, run_append, run_append]
    exact hrests

/-! ## The lines -/

/-- What becomes of a burst behind another: a bit in front, and the last one lost. -/
def Burst.shifted (b : Burst) : List Char := (if LowPulse 1225 (lowUs b.markLow) then '0' else '?') :: b.text.dropLast

/-- A burst behind another. -/
theorem ringText_later {ring : RingBufS} {x : Int16} (hx : HighPulse x) (b : Burst)
    (h : RingIs ring ([x] ++ [lowUs b.markLow] ++ intervals (b.pairs.take 63))) : ringText ring = b.shifted := by
  have hnot : ¬ LowPulse 275 (lowUs b.markLow) := fun hshort => by
    have hlow := lowPulse_275_iff.mp hshort
    have hmark := lowPulse_2675_iff.mp b.mark.2
    omega
  rw [ringText_shifted b h, Burst.shifted, heChar, if_neg fun h => hnot h.2]
  simp only [hx, true_and]

theorem Rests.later {bs : List Burst} (hends : ∀ b ∈ bs, b.Ends) :
    ∀ {s : Receiver} {x : Int16}, Rests s [x] → HighPulse x → storedBy s (bs.flatMap Burst.edges) = bs.map Burst.shifted := by
  induction bs with
  | nil => exact fun _ _ => rfl
  | cons b bs ih =>
    intro s x hrests hx
    obtain ⟨ring, y, hring, hstored, hy, hnext⟩ := hrests.burst b (hends b List.mem_cons_self)
    rw [List.flatMap_cons, storedBy_append, hstored, ringText_later hx b hring,
      ih (fun b' hb' => hends b' (List.mem_cons_of_mem b hb')) hnext hy]
    rfl

end OflMetrics
