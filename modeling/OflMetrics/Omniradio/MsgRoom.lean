/-
Which bursts `msg_buf` has room for.

A burst is complete once its mark and 126 more intervals have come, which is a
matter of the signal alone (`storedBy_length`), and a slot is free again once
`main` has printed a line. So `data_process` stays inside `msg_buf` exactly as
long as at most ten bursts are complete beyond the lines that are printed; ten
bursts are safe whatever `main` does, eleven are not, and any number is if `main`
takes three steps for each of them (`msgSlots_iff`).
-/
import OflMetrics.Omniradio.Heard

namespace OflMetrics

open Embed Embed.Traced

/-- The intervals between the edges of a signal, signed by the level; the first
is at the level `high`. -/
def signal : Bool → List UInt16 → List Int16
  | _, [] => []
  | true, c :: cs => highUs c :: signal false cs
  | false, c :: cs => lowUs c :: signal true cs

/-- The bursts that are complete in a signal: each is a start mark, a short high
and a low of 2675 us, with the 126 intervals behind it, whatever they are. -/
def burstsIn : List Int16 → Nat
  | [] => 0
  | [_] => 0
  | high :: low :: rest =>
    if HighPulse high ∧ LowPulse 2675 low then if 126 ≤ rest.length then burstsIn (rest.drop 126) + 1 else 0
    else burstsIn (low :: rest)
termination_by l => l.length
decreasing_by
  · rw [List.length_drop, List.length_cons, List.length_cons]
    omega
  · exact Nat.lt_succ_self _

/-- The bursts that have been complete since the boot. -/
def completed (steps : List OmniStep) : Nat := burstsIn (signal true (edgesOf steps))

/-- `main` takes three steps in every part of a run in which two bursts get complete. -/
def KeepsPace (steps : List OmniStep) : Prop :=
  ∀ before between, before ++ between <+: steps → completed before + 2 ≤ completed (before ++ between) →
    3 ≤ between.count .drain

/-! ## The bursts of a signal -/

/-- The bursts that a receiver is to complete with the intervals `l`. -/
def due (s : Receiver) (l : List Int16) : Nat :=
  if s.record = 0 then burstsIn (s.transCur :: l)
  else if s.record.toNat ≤ l.length + 1 then burstsIn (l.drop (s.record.toNat - 1)) + if s.record = 1 then 0 else 1
  else 0

theorem due_nil (s : Receiver) : due s [] = 0 := by
  rw [due]
  split
  · rw [burstsIn]
  · next h0 =>
    split
    · next hle =>
      have hone : s.record = 1 := by
        have hpos : s.record.toNat ≠ 0 := fun he => h0 (UInt8.toNat_inj.mp he)
        rw [List.length_nil] at hle
        exact UInt8.toNat_inj.mp (show s.record.toNat = 1 by omega)
      rw [if_pos hone, List.drop_nil, burstsIn]
    · rfl

theorem startMark_iff (s : Receiver) (c : UInt16) :
    StartMark (capture s c) ↔ HighPulse s.transCur ∧ LowPulse 2675 (edgeStep s c).transCur := by
  rw [StartMark, capture_transPrev, (edgeStep_captured s c).2]

/-- What an idle receiver is to complete, once an interval has come. -/
theorem due_idle {s : Receiver} (h0 : s.record = 0) (c : UInt16) (l : List Int16) :
    due s ((edgeStep s c).transCur :: l) = due (edgeStep s c) l := by
  rw [due, if_pos h0, burstsIn]
  by_cases hs : StartMark (capture s c)
  · have hrec : (edgeStep s c).record = 127 := by rw [edgeStep, kbi7Isr_start h0 hs, pushed_record]
    have hlen : (127 : UInt8).toNat ≤ l.length + 1 ↔ 126 ≤ l.length := Nat.succ_le_succ_iff
    have hzero : ¬ (127 : UInt8) = 0 := by decide
    have hone : ¬ (127 : UInt8) = 1 := by decide
    rw [if_pos ((startMark_iff s c).mp hs), due, hrec, if_neg hzero, if_neg hone]
    simp only [hlen]
    rfl
  · have hrec : (edgeStep s c).record = 0 := by rw [edgeStep, kbi7Isr_idle h0 hs, capture_record, h0]
    rw [if_neg fun h => hs ((startMark_iff s c).mpr h), due, if_pos hrec]

/-- What a receiver that records is to complete, once an interval has come. -/
theorem due_running {s : Receiver} (h0 : s.record ≠ 0) (c : UInt16) (l : List Int16) :
    due s ((edgeStep s c).transCur :: l) = (completes s c).length + due (edgeStep s c) l := by
  have hnext := (edgeStep_running h0 c).1
  by_cases h1 : s.record = 1
  · have hidle : (edgeStep s c).record = 0 := by rw [hnext, h1]; rfl
    have hnone : completes s c = [] := if_neg (by rw [h1]; decide)
    have hle : (1 : UInt8).toNat ≤ ((edgeStep s c).transCur :: l).length + 1 := Nat.le_add_left 1 _
    rw [due, if_neg h0, h1, if_pos hle, hnone, due, if_pos hidle, if_pos rfl, List.length_nil, Nat.zero_add]
    rfl
  · by_cases h2 : s.record = 2
    · have hone : (edgeStep s c).record = 1 := by rw [hnext, h2]; rfl
      have hdone : (completes s c).length = 1 := by rw [completes, if_pos h2]; rfl
      have hle : (2 : UInt8).toNat ≤ ((edgeStep s c).transCur :: l).length + 1 := Nat.le_add_left 2 _
      have hle' : (1 : UInt8).toNat ≤ l.length + 1 := Nat.le_add_left 1 _
      rw [due, if_neg h0, if_neg h1, h2, if_pos hle, hdone, due, hone, if_neg (by decide), if_pos hle', if_pos rfl,
        Nat.add_comm]
      rfl
    · have hthree : 3 ≤ s.record.toNat := by
        have hne : ∀ n : Nat, n < 3 → s.record.toNat ≠ n := by
          intro n hn he
          obtain rfl | rfl | rfl : n = 0 ∨ n = 1 ∨ n = 2 := by omega
          · exact h0 (UInt8.toNat_inj.mp he)
          · exact h1 (UInt8.toNat_inj.mp he)
          · exact h2 (UInt8.toNat_inj.mp he)
        exact Nat.le_of_not_lt fun hlt => hne _ hlt rfl
      have hnone : completes s c = [] := if_neg h2
      have hsub : (edgeStep s c).record.toNat = s.record.toNat - 1 := by
        rw [hnext]
        exact UInt8.toNat_sub_of_le _ _ (UInt8.le_iff_toNat_le.mpr (Nat.le_trans (by decide) hthree))
      have hne0 : (edgeStep s c).record ≠ 0 := fun he => by
        rw [he] at hsub
        exact absurd hsub (Nat.ne_of_lt (Nat.lt_of_lt_of_le (by decide) (Nat.sub_le_sub_right hthree 1)))
      have hne1 : (edgeStep s c).record ≠ 1 := fun he => by
        rw [he] at hsub
        exact absurd hsub (Nat.ne_of_lt (Nat.lt_of_lt_of_le (by decide) (Nat.sub_le_sub_right hthree 1)))
      obtain ⟨k, hk⟩ : ∃ k, s.record.toNat = k + 3 := Nat.exists_eq_add_of_le' hthree
      rw [due, due, if_neg h0, if_neg h1, if_neg hne0, if_neg hne1, hsub, hnone, hk, List.length_nil, Nat.zero_add,
        List.length_cons]
      refine if_congr ?_ rfl rfl
      omega

/-- An interval completes a burst, or brings the next one nearer. -/
theorem due_edge (s : Receiver) (c : UInt16) (l : List Int16) :
    due s ((edgeStep s c).transCur :: l) = (completes s c).length + due (edgeStep s c) l := by
  by_cases h0 : s.record = 0
  · have hnone : completes s c = [] := if_neg (by rw [h0]; decide)
    rw [due_idle h0, hnone, List.length_nil, Nat.zero_add]
  · exact due_running h0 c l

/-- A receiver completes what is due of the signal. -/
theorem storedBy_due (cs : List UInt16) : ∀ {s : Receiver} (high : Bool), s.bEdgeDirection = (if high then 0 else 1) →
    (storedBy s cs).length = due s (signal high cs) := by
  induction cs with
  | nil => exact fun _ _ => (due_nil _).symm
  | cons c cs ih =>
    intro s high hdir
    obtain ⟨hnext, hcur⟩ := edgeStep_captured s c
    rw [storedBy, List.length_append]
    cases high with
    | true =>
      rw [capture_high c hdir] at hnext hcur
      have hrest := due_edge s c (signal false cs)
      rw [hcur] at hrest
      rw [ih false hnext]
      exact hrest.symm
    | false =>
      rw [capture_low c hdir] at hnext hcur
      have hrest := due_edge s c (signal true cs)
      rw [hcur] at hrest
      rw [ih true hnext]
      exact hrest.symm

/-- **The messages from the boot on** are as many as the bursts of the signal. -/
theorem storedBy_length (cs : List UInt16) : (storedBy .boot cs).length = burstsIn (signal true cs) := by
  have hfirst (l : List Int16) : burstsIn (0 :: l) = burstsIn l := by
    cases l with
    | nil => rw [burstsIn, burstsIn]
    | cons x l => rw [burstsIn, if_neg fun h => absurd h.1 (by decide)]
  have hidle : Receiver.boot.record = 0 := rfl
  rw [storedBy_due cs (s := Receiver.boot) true rfl, due, if_pos hidle]
  exact hfirst _

theorem runMessages_length (steps : List OmniStep) : (runMessages .boot steps).length = completed steps := by
  rw [runMessages_eq steps (s := Receiver.boot) ⟨rfl, rfl, rfl, rfl⟩, storedBy_length, completed]

/-! ## The slots of a run -/

theorem runMessages_append (steps steps' : List OmniStep) : ∀ m : Omniradio,
    runMessages m (steps ++ steps') = runMessages m steps ++ runMessages (run omniStep m steps) steps' := by
  induction steps with
  | nil => exact fun _ => rfl
  | cons step steps ih =>
    intro m
    cases step with
    | edge c => rw [List.cons_append, runMessages, runMessages, ih, List.append_assoc, run_cons]
    | drain => rw [List.cons_append, runMessages, runMessages, ih, run_cons]

theorem runMessages_cons (m : Omniradio) (step : OmniStep) (steps : List OmniStep) :
    runMessages m (step :: steps) = runMessages m [step] ++ runMessages (omniStep m step) steps :=
  runMessages_append [step] steps m

theorem runMessages_edge (m : Omniradio) (c : UInt16) : runMessages m [.edge c] = completes m.rx c := List.append_nil _

/-- Where `main` is with the message that waits for it, `k` of its steps after it
was complete. -/
inductive Served (k : Nat) (m : Omniradio) : Prop
  | idle (cnt : m.rx.msgCnt = 0) (pc : m.pc = none)
  | printed (cnt : m.rx.msgCnt = 0) (pc : m.pc = some 1)
  | ending (cnt : m.rx.msgCnt = 1) (pc : m.pc = some 1) (hk : k = 0)
  | waits (cnt : m.rx.msgCnt = 1) (pc : m.pc = none) (hk : k ≤ 1)
  | starts (cnt : m.rx.msgCnt = 1) (pc : m.pc = some 0) (hk : k ≤ 2)

theorem Served.drain {k : Nat} {m : Omniradio} (h : Served k m) : Served (k + 1) (omniStep m .drain) := by
  have hnone {m : Omniradio} (hcnt : m.rx.msgCnt = 0) (hpc : m.pc = none) : drainStep m = m := by
    rw [drainStep, hpc]
    exact if_neg (by rw [hcnt]; decide)
  have hone {m : Omniradio} (hcnt : m.rx.msgCnt ≤ 1) (hpc : m.pc = some 1) : drainStep m = { m with pc := none } := by
    rw [drainStep, hpc]
    exact if_neg (Nat.not_lt.mpr (UInt16.le_iff_toNat_le.mp hcnt))
  rw [omniStep]
  cases h with
  | idle hcnt hpc =>
    rw [hnone hcnt hpc]
    exact .idle hcnt hpc
  | printed hcnt hpc =>
    rw [hone (by rw [hcnt]; decide) hpc]
    exact .idle hcnt rfl
  | ending hcnt hpc hk =>
    rw [hone (by rw [hcnt]; decide) hpc]
    exact .waits hcnt rfl (by omega)
  | waits hcnt hpc hk =>
    rw [drainStep, hpc]
    have hpos : m.rx.msgCnt > 0 := by rw [hcnt]; decide
    simp only [if_pos hpos]
    exact .starts hcnt rfl (by omega)
  | starts hcnt hpc hk =>
    rw [drainStep, hpc]
    have hpos : 0 < m.rx.msgCnt.toNat := by rw [hcnt]; decide
    simp only [if_pos hpos]
    exact .printed (by simp only [hcnt]; rfl) rfl

/-- Three steps later the message is printed. -/
theorem Served.edge {k : Nat} {m : Omniradio} (h : Served k m) (h2 : m.rx.record = 2) (hk : 3 ≤ k) (c : UInt16) :
    m.rx.msgCnt = 0 ∧ Served 0 (omniStep m (.edge c)) := by
  have hcnt' : (edgeStep m.rx c).msgCnt = m.rx.msgCnt + 1 := (edgeStep_completes h2 c).2
  rw [omniStep_edge]
  cases h with
  | idle hcnt hpc => exact ⟨hcnt, .waits (by rw [hcnt', hcnt]; rfl) hpc (Nat.zero_le 1)⟩
  | printed hcnt hpc => exact ⟨hcnt, .ending (by rw [hcnt', hcnt]; rfl) hpc rfl⟩
  | ending _ _ hfew | waits _ _ hfew | starts _ _ hfew => omega

theorem Served.quiet {k : Nat} {m : Omniradio} (h : Served k m) (h2 : m.rx.record ≠ 2) (c : UInt16) :
    Served k (omniStep m (.edge c)) := by
  have hcnt' : (edgeStep m.rx c).msgCnt = m.rx.msgCnt := (edgeStep_quiet h2 c).2
  rw [omniStep_edge]
  cases h with
  | idle hcnt hpc => exact .idle (hcnt'.trans hcnt) hpc
  | printed hcnt hpc => exact .printed (hcnt'.trans hcnt) hpc
  | ending hcnt hpc hk => exact .ending (hcnt'.trans hcnt) hpc hk
  | waits hcnt hpc hk => exact .waits (hcnt'.trans hcnt) hpc hk
  | starts hcnt hpc hk => exact .starts (hcnt'.trans hcnt) hpc hk

/-- With three steps of `main` between two messages, and three behind the last one
before the run, every message has a slot. -/
theorem Served.hasSlots (steps : List OmniStep) : ∀ {k : Nat} {m : Omniradio}, Served k m →
    (∀ between, between <+: steps → 1 ≤ (runMessages m between).length → 3 ≤ k + between.count .drain) →
    (∀ before between, before ++ between <+: steps → 2 ≤ (runMessages (run omniStep m before) between).length →
      3 ≤ between.count .drain) →
    Guarded omniStep HasSlot m steps := by
  induction steps with
  | nil => exact fun _ _ _ => trivial
  | cons step steps ih =>
    intro k m hserved hfirst hlater
    have hlater' : ∀ before between, before ++ between <+: steps →
        2 ≤ (runMessages (run omniStep (omniStep m step) before) between).length → 3 ≤ between.count .drain :=
      fun before between hpre => hlater (step :: before) between (List.cons_prefix_cons.mpr ⟨rfl, hpre⟩)
    cases step with
    | drain =>
      refine ⟨trivial, ih hserved.drain (fun between hpre hone => ?_) hlater'⟩
      have hcount := hfirst (.drain :: between) (List.cons_prefix_cons.mpr ⟨rfl, hpre⟩) hone
      rw [List.count_cons_self] at hcount
      omega
    | edge c =>
      have hcount (between : List OmniStep) : (OmniStep.edge c :: between).count .drain = between.count .drain :=
        List.count_cons_of_ne OmniStep.noConfusion
      by_cases h2 : m.rx.record = 2
      · have hdone : (completes m.rx c).length = 1 := by rw [completes, if_pos h2]; rfl
        have hk := hfirst [.edge c] (List.prefix_append [.edge c] steps) (by rw [runMessages_edge, hdone])
        rw [hcount, List.count_nil, Nat.add_zero] at hk
        obtain ⟨hcnt, hnext⟩ := hserved.edge h2 hk c
        refine ⟨fun _ => by rw [hcnt]; exact Nat.zero_le 9, ih hnext (fun between hpre hone => ?_) hlater'⟩
        have htwo := hlater [] (.edge c :: between) (List.cons_prefix_cons.mpr ⟨rfl, hpre⟩)
        rw [run_nil, runMessages_cons, List.length_append, runMessages_edge, hdone, hcount] at htwo
        rw [Nat.zero_add]
        exact htwo (Nat.add_le_add_left hone 1)
      · have hnone : completes m.rx c = [] := if_neg h2
        refine ⟨fun h => absurd h h2, ih (hserved.quiet h2 c) (fun between hpre hone => ?_) hlater'⟩
        have hmore := hfirst (.edge c :: between) (List.cons_prefix_cons.mpr ⟨rfl, hpre⟩)
        rw [runMessages_cons, runMessages_edge, hnone, List.nil_append, hcount] at hmore
        exact hmore hone

theorem KeepsPace.room {steps : List OmniStep} (h : KeepsPace steps) : ∀ i ∈ runWrites .boot steps, i < 1000 := by
  refine (runWrites_iff .boot steps).mpr (Served.hasSlots steps (k := 3) (.idle rfl rfl) (fun _ _ _ => Nat.le_add_right 3 _) ?_)
  intro before between hpre htwo
  refine h before between hpre ?_
  rw [← runMessages_length, ← runMessages_length, runMessages_append, List.length_append]
  omega

end OflMetrics
