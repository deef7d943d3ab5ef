/-
Where `data_process` stores messages, over every run of the firmware.

A message goes to slot `msg_cnt` of `msg_buf`, which has room for ten, and
nothing compares the two. A step writes below 1000 exactly if a message that
completes in it has one of the ten (`stepWrites_iff`); of eleven bursts that no
drain comes between the last has none (`eleven_bursts`). Which runs keep to the
ten slots is said in `OflMetrics.Omniradio.MsgRoom`.
-/
import OflMetrics.Omniradio.HomeEasy
import OflMetrics.Omniradio.RingStays

namespace OflMetrics

open Embed Embed.Traced

/-- The indices of `msg_buf` an interrupt's log writes. -/
def msgWrites (l : List RxEvent) : List Nat :=
  l.filterMap fun | .msgWrite i => some i | _ => none

/-- The indices of `msg_buf` one step of the firmware writes. -/
def stepWrites (m : Omniradio) : OmniStep → List Nat
  | .edge delta => msgWrites (log (kbi7Isr m.rx delta))
  | .drain => []

/-- The indices of `msg_buf` a run writes. -/
def runWrites : Omniradio → List OmniStep → List Nat
  | _, [] => []
  | m, step :: steps => stepWrites m step ++ runWrites (omniStep m step) steps

/-- A message that completes has one of the ten slots. -/
def HasSlot (m : Omniradio) : OmniStep → Prop
  | .edge _ => m.rx.record = 2 → m.rx.msgCnt.toNat ≤ 9
  | .drain => True

/-! ## The writes of one interrupt -/

@[simp] theorem msgWrites_append (l l' : List RxEvent) : msgWrites (l ++ l') = msgWrites l ++ msgWrites l' :=
  List.filterMap_append
@[simp] theorem msgWrites_map (l : List (Access RingBuf)) : msgWrites (l.map .ring) = [] := by
  simp [msgWrites, List.filterMap_map]
@[simp] theorem msgWrites_msgWrite (i : Nat) : msgWrites [.msgWrite i] = [i] := rfl
@[simp] theorem msgWrites_error (c : Prop) [Decidable c] (d0 d1 : Int16) :
    msgWrites (if c then [.error d0 d1] else []) = [] := by
  split <;> rfl

theorem msgWrites_dataProcessLoop (ring : RingBufS) (msgCnt : UInt16) :
    ∀ n i msgBuf, msgWrites (log (dataProcessLoop ring msgCnt n i msgBuf)) = Mem.span (100 * msgCnt.toNat + i) n
  | 0, _, _ => rfl
  | n + 1, i, msgBuf => by
    simp only [dataProcessLoop, log_bind, log_mapLog, log_tell, msgWrites_append, msgWrites_map, msgWrites_msgWrite,
      msgWrites_error, List.nil_append, msgWrites_dataProcessLoop ring msgCnt n]
    rw [Mem.span_succ]
    rfl

/-- The 64 characters and the zero of slot `msg_cnt`. -/
theorem msgWrites_dataProcess (s : Receiver) :
    msgWrites (log (dataProcess s)) = Mem.span (100 * s.msgCnt.toNat) (HE_BITLEN + 1) := by
  simp only [dataProcess, log_bind, log_tell, log_pure, msgWrites_append, msgWrites_msgWrite,
    msgWrites_dataProcessLoop, Nat.add_zero, List.append_nil]
  rw [Mem.span_add]
  rfl

@[simp] theorem searchStart_msgCnt (s : Receiver) : (searchStart s).msgCnt = s.msgCnt := by
  unfold searchStart
  split <;> [split <;> rfl; rfl]

theorem recordEdge_msgCnt (s : Receiver) : (val (recordEdge s)).msgCnt = s.msgCnt := by
  unfold recordEdge
  split <;> rfl

theorem msgWrites_recordEdge (s : Receiver) : msgWrites (log (recordEdge s)) = [] := by
  unfold recordEdge
  split
  · simp only [log_bind, log_mapLog, log_pure, List.append_nil, msgWrites_map]
  · rfl

/-- An interrupt writes the 65 bytes of slot `msg_cnt` when it ends a
recording, and nothing otherwise. -/
theorem msgWrites_kbi7Isr (s : Receiver) (delta : UInt16) :
    msgWrites (log (kbi7Isr s delta)) =
      if s.record = 2 then Mem.span (100 * s.msgCnt.toNat) (HE_BITLEN + 1) else [] := by
  simp only [kbi7Isr, log_bind, msgWrites_append, msgWrites_recordEdge, List.nil_append, processRing, log_ite,
    countdown_eq_one]
  split
  · simp only [log_pure, List.append_nil, msgWrites_dataProcess, recordEdge_msgCnt, searchStart_msgCnt, capture_msgCnt]
  · rfl

theorem stepWrites_iff (m : Omniradio) (step : OmniStep) :
    (∀ i ∈ stepWrites m step, i < msgBufSize) ↔ HasSlot m step := by
  cases step with
  | edge delta =>
    simp only [stepWrites, msgWrites_kbi7Isr, HasSlot]
    split
    · next h2 =>
      simp only [h2, forall_const, Mem.mem_span, HE_BITLEN, msgBufSize]
      constructor
      · intro hall
        have hlast := hall (100 * m.rx.msgCnt.toNat + 64) (by omega)
        omega
      · intro hcnt i hi
        omega
    · next h2 => exact iff_of_true (fun i hi => absurd hi List.not_mem_nil) fun h => absurd h h2
  | drain => exact iff_of_true (fun i hi => absurd hi List.not_mem_nil) trivial

theorem runWrites_iff (m : Omniradio) (steps : List OmniStep) :
    (∀ i ∈ runWrites m steps, i < 1000) ↔ Guarded omniStep HasSlot m steps := by
  induction steps generalizing m with
  | nil => exact iff_of_true (fun i hi => absurd hi List.not_mem_nil) trivial
  | cons step steps ih =>
    have hstep := stepWrites_iff m step
    simp only [msgBufSize] at hstep
    simp only [runWrites, List.mem_append, or_imp, forall_and, Guarded]
    rw [hstep, ih]

/-! ## Eleven bursts -/

theorem edgeStep_running {s : Receiver} (h0 : s.record ≠ 0) (delta : UInt16) :
    (edgeStep s delta).record = s.record - 1 ∧
      (edgeStep s delta).msgCnt = if s.record = 2 then s.msgCnt + 1 else s.msgCnt := by
  by_cases h2 : s.record = 2
  · rw [edgeStep, kbi7Isr_last h2, if_pos h2, h2]
    exact ⟨rfl, rfl⟩
  · obtain ⟨hrec, -, -, -, hcnt⟩ := edgeStep_record (c := delta) h0 h2
    rw [hrec, hcnt, if_neg h2]
    exact ⟨rfl, rfl⟩

/-- Whatever the edges, a recording counts down by one each, and its message is
counted at 1. -/
theorem run_running (deltas : List UInt16) : ∀ s : Receiver, deltas.length ≤ s.record.toNat →
    (run edgeStep s deltas).record.toNat = s.record.toNat - deltas.length ∧
      (run edgeStep s deltas).msgCnt =
        if 2 ≤ s.record.toNat ∧ s.record.toNat ≤ deltas.length + 1 then s.msgCnt + 1 else s.msgCnt := by
  induction deltas with
  | nil =>
    intro s _
    rw [if_neg (by rw [List.length_nil]; omega)]
    exact ⟨rfl, rfl⟩
  | cons delta deltas ih =>
    intro s hle
    rw [List.length_cons] at hle ⊢
    have hne : s.record.toNat ≠ 0 := by omega
    obtain ⟨hrec, hcnt⟩ := edgeStep_running (fun he => hne (by rw [he]; rfl) : s.record ≠ 0) delta
    have hsub : (edgeStep s delta).record.toNat = s.record.toNat - 1 := by
      rw [hrec]
      exact UInt8.toNat_sub_of_le _ _ (UInt8.le_iff_toNat_le.mpr (Nat.pos_of_ne_zero hne))
    obtain ⟨hrec', hcnt'⟩ := ih (edgeStep s delta) (by omega)
    rw [run_cons, hrec', hcnt', hcnt, hsub]
    refine ⟨by omega, ?_⟩
    by_cases h2 : s.record = 2
    · have htwo : s.record.toNat = 2 := by rw [h2]; rfl
      rw [if_pos h2, htwo, if_neg (by omega), if_pos (by omega)]
    · have htwo : s.record.toNat ≠ 2 := fun he => h2 (UInt8.toNat_inj.mp he)
      rw [if_neg h2]
      refine if_congr ?_ rfl rfl
      omega

theorem direction_pair {s : Receiver} (h : s.bEdgeDirection = 0) (high low : UInt16) :
    (edgeStep s high).bEdgeDirection = 1 ∧ (edgeStep (edgeStep s high) low).bEdgeDirection = 0 := by
  have hhigh : (edgeStep s high).bEdgeDirection = 1 := by rw [(edgeStep_captured s high).1, capture_high high h]
  exact ⟨hhigh, by rw [(edgeStep_captured _ low).1, capture_low low hhigh]⟩

theorem direction_pulses (ps : List (UInt16 × UInt16)) : ∀ s : Receiver, s.bEdgeDirection = 0 →
    (run edgeStep s (pulses ps)).bEdgeDirection = 0 := by
  induction ps with
  | nil => exact fun s h => h
  | cons p ps ih =>
    intro s h
    rw [show pulses (p :: ps) = p.1 :: p.2 :: pulses ps from rfl, run_cons, run_cons]
    exact ih _ (direction_pair h p.1 p.2).2

/-- Ready for a burst. -/
structure Idle (s : Receiver) : Prop where
  record : s.record = 0
  direction : s.bEdgeDirection = 0
  inv : ReceiverInv s

theorem Idle.mark {s : Receiver} (h : Idle s) :
    ∃ l, Recording s l 127 (run edgeStep s [onesBurst.markHigh, onesBurst.markLow]) := by
  obtain ⟨l, hring, hzero, -, -⟩ := h.inv
  exact ⟨_, Recording.start hring (hzero h.record) h.record h.direction onesBurst.mark⟩

/-- A pair of short pulses at the end of a recording leaves the receiver idle. -/
theorem run_last_pair {s : Receiver} (hrec : s.record = 1) (hdir : s.bEdgeDirection = 0) :
    (run edgeStep s [52, 52]).record = 0 ∧ (run edgeStep s [52, 52]).msgCnt = s.msgCnt := by
  obtain ⟨hhigh, -⟩ := direction_pair hdir 52 52
  obtain ⟨hrec', hcnt⟩ := edgeStep_running (show s.record ≠ 0 by rw [hrec]; decide) 52
  rw [hrec, if_neg (by decide)] at hcnt
  rw [hrec] at hrec'
  rw [run_cons, run_cons, run_nil]
  generalize edgeStep s 52 = t at *
  have hnot : ¬ StartMark (capture t 52) := by
    rw [capture_low 52 hhigh]
    rintro ⟨-, hlow⟩
    exact absurd hlow (show ¬ LowPulse 2675 (lowUs 52) by decide)
  rw [edgeStep, kbi7Isr_idle hrec' hnot, capture_record, capture_msgCnt, hrec', hcnt]
  exact ⟨rfl, rfl⟩

theorem Idle.burst {s : Receiver} (h : Idle s) :
    Idle (run edgeStep s onesBurst.edges) ∧ (run edgeStep s onesBurst.edges).msgCnt = s.msgCnt + 1 := by
  obtain ⟨l, hmark⟩ := h.mark
  have hdirEnd := direction_pulses onesBurst.pairs _ hmark.direction
  have hinv : ReceiverInv (run edgeStep s onesBurst.edges) := run_invariant (fun _ delta hi => kbi7Isr_inv delta hi) h.inv
  have hsplit : pulses onesBurst.pairs = pulses (List.replicate 63 (52, 52)) ++ [52, 52] := by decide +kernel
  have hlength : (pulses (List.replicate 63 (52, 52))).length = 126 := by decide +kernel
  rw [Burst.edges, run_append] at hinv ⊢
  generalize run edgeStep s [onesBurst.markHigh, onesBurst.markLow] = t at *
  have hdir := direction_pulses (List.replicate 63 (52, 52)) t hmark.direction
  obtain ⟨hrec, hcnt⟩ := run_running (pulses (List.replicate 63 (52, 52))) t (by rw [hmark.record, hlength]; decide)
  rw [hlength, hmark.record] at hrec hcnt
  rw [if_pos (by decide), hmark.msgCnt] at hcnt
  rw [hsplit, run_append] at hinv hdirEnd ⊢
  generalize run edgeStep t (pulses (List.replicate 63 (52, 52))) = u at *
  obtain ⟨hrecEnd, hcntEnd⟩ := run_last_pair (UInt8.toNat_inj.mp hrec) hdir
  exact ⟨⟨hrecEnd, hdirEnd, hinv⟩, hcntEnd.trans hcnt⟩

/-- The edges of `n` bursts. -/
def bursts (n : Nat) : List UInt16 := (List.replicate n onesBurst.edges).flatten

theorem bursts_succ (n : Nat) : bursts (n + 1) = bursts n ++ onesBurst.edges := by
  rw [bursts, List.replicate_succ', List.flatten_append]
  simp [bursts]

theorem Idle.bursts {s : Receiver} (h : Idle s) (n : Nat) :
    Idle (run edgeStep s (bursts n)) ∧ (run edgeStep s (bursts n)).msgCnt = s.msgCnt + UInt16.ofNat n := by
  induction n with
  | zero => exact ⟨h, (UInt16.add_zero _).symm⟩
  | succ n ih =>
    obtain ⟨hidle, hcnt⟩ := ih
    obtain ⟨hidle', hcnt'⟩ := hidle.burst
    rw [bursts_succ, run_append]
    refine ⟨hidle', ?_⟩
    rw [hcnt', hcnt, UInt16.ofNat_add, UInt16.add_assoc]
    rfl

/-- The edge that completes the message of a burst. -/
theorem Idle.completes {s : Receiver} (h : Idle s) :
    ∃ before after, onesBurst.edges = before ++ 52 :: after ∧
      (run edgeStep s before).record = 2 ∧ (run edgeStep s before).msgCnt = s.msgCnt := by
  obtain ⟨l, hmark⟩ := h.mark
  refine ⟨[onesBurst.markHigh, onesBurst.markLow] ++ List.replicate 125 52, [52, 52], by decide +kernel, ?_⟩
  rw [run_append]
  generalize run edgeStep s [onesBurst.markHigh, onesBurst.markLow] = t at *
  obtain ⟨hrec, hcnt⟩ := run_running (List.replicate 125 52) t (by rw [hmark.record, List.length_replicate]; decide)
  rw [List.length_replicate, hmark.record] at hrec hcnt
  rw [if_neg (by decide), hmark.msgCnt] at hcnt
  exact ⟨UInt8.toNat_inj.mp hrec, hcnt⟩

end OflMetrics
