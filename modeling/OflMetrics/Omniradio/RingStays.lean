/-
The receiver's ring never wraps.

A recording pushes 128 intervals and the ring is emptied before the last of
them, which stays for the next recording; so with the countdown at `r` above 1
the ring holds `128 - r` or `129 - r` elements (`StayOk`). The interrupt is
taken as the sequence of ring calls it makes (`isrCalls`, tied to its log by
`kbi7Isr_calls`), and `RingIs` is carried along that sequence.
-/
import OflMetrics.Omniradio.ReceiverFacts
import OflMetrics.RingBounds

namespace OflMetrics

open Embed Embed.Traced

/-! ## The ring calls of an interrupt -/

/-- The calls of `data_process`'s loop from `i` on. -/
def dataProcessCalls : Nat → Nat → List RingCall
  | 0, _ => []
  | n + 1, i => .get (UInt16.ofNat (i * 2)) :: .get (UInt16.ofNat (i * 2 + 1)) :: dataProcessCalls n (i + 1)

/-- The calls of `kbi7_isr`, for the timer count `delta`. -/
def isrCalls (s : Receiver) (delta : UInt16) : List RingCall :=
  let s := searchStart (capture s delta)
  (if s.record > 0 then [.push s.transCur] else []) ++
    if (val (recordEdge s)).record = 1 then dataProcessCalls HE_BITLEN 0 ++ [.reset] else []

/-- The calls of a sequence of interrupts. -/
def edgesCalls : Receiver → List UInt16 → List RingCall
  | _, [] => []
  | s, delta :: deltas => isrCalls s delta ++ edgesCalls (edgeStep s delta) deltas

/-- The ring accesses of an interrupt's log. -/
def ringLog (l : List RxEvent) : List (Access RingBuf) :=
  l.filterMap fun | .ring a => some a | _ => none

@[simp] theorem ringLog_nil : ringLog [] = [] := rfl
@[simp] theorem ringLog_append (l l' : List RxEvent) : ringLog (l ++ l') = ringLog l ++ ringLog l' :=
  List.filterMap_append
@[simp] theorem ringLog_map (l : List (Access RingBuf)) : ringLog (l.map .ring) = l := by
  simp [ringLog, List.filterMap_map]
@[simp] theorem ringLog_msgWrite (i : Nat) : ringLog [.msgWrite i] = [] := rfl
@[simp] theorem ringLog_error (c : Prop) [Decidable c] (d0 d1 : Int16) :
    ringLog (if c then [.error d0 d1] else []) = [] := by
  split <;> rfl

theorem ringAccesses_append (ring : RingBufS) (calls calls' : List RingCall) :
    ringAccesses ring (calls ++ calls') = ringAccesses ring calls ++ ringAccesses (run ringNext ring calls) calls' := by
  induction calls generalizing ring with
  | nil => rfl
  | cons call calls ih => simp only [List.cons_append, ringAccesses, ih, run_cons, List.append_assoc]

/-- Reading leaves the ring as it is. -/
theorem run_dataProcessCalls (ring : RingBufS) : ∀ n i, run ringNext ring (dataProcessCalls n i) = ring
  | 0, _ => rfl
  | n + 1, i => run_dataProcessCalls ring n (i + 1)

theorem ringLog_dataProcessLoop (ring : RingBufS) (msgCnt : UInt16) :
    ∀ n i msgBuf, ringLog (log (dataProcessLoop ring msgCnt n i msgBuf)) = ringAccesses ring (dataProcessCalls n i)
  | 0, _, _ => rfl
  | n + 1, i, msgBuf => by
    have hnext (pPos : UInt16) : ringNext ring (.get pPos) = ring := rfl
    have hcall (pPos : UInt16) : log (ringCall ring (.get pPos)) = log (ringGet ring pPos) := by
      simp [ringCall]
    simp only [dataProcessLoop, log_bind, log_mapLog, log_tell, ringLog_append, ringLog_map, ringLog_msgWrite,
      ringLog_error, List.nil_append, ringLog_dataProcessLoop ring msgCnt n]
    simp only [dataProcessCalls, ringAccesses, hnext, hcall]

theorem ringLog_dataProcess (s : Receiver) :
    ringLog (log (dataProcess s)) = ringAccesses s.ring (dataProcessCalls HE_BITLEN 0) := by
  simp only [dataProcess, log_bind, log_tell, log_pure, ringLog_append, ringLog_msgWrite,
    ringLog_dataProcessLoop, List.append_nil]

@[simp] theorem searchStart_ring (s : Receiver) : (searchStart s).ring = s.ring := by
  unfold searchStart
  split <;> [split <;> rfl; rfl]

theorem recordEdge_calls (s : Receiver) :
    let calls : List RingCall := if s.record > 0 then [.push s.transCur] else []
    (val (recordEdge s)).ring = run ringNext s.ring calls ∧
      ringLog (log (recordEdge s)) = ringAccesses s.ring calls := by
  by_cases h : s.record > 0
  · simp only [recordEdge, if_pos h]
    exact ⟨rfl, by simp [ringAccesses, ringCall]⟩
  · simp only [recordEdge, if_neg h]
    exact ⟨rfl, rfl⟩

theorem processRing_calls (s : Receiver) :
    let calls : List RingCall := if s.record = 1 then dataProcessCalls HE_BITLEN 0 ++ [.reset] else []
    (val (processRing s)).ring = run ringNext s.ring calls ∧
      ringLog (log (processRing s)) = ringAccesses s.ring calls := by
  by_cases h : s.record = 1
  · simp only [processRing, if_pos h, run_append, run_dataProcessCalls, ringAccesses_append]
    refine ⟨by rw [val_bind, dataProcess_val]; rfl, ?_⟩
    simp only [log_bind, log_pure, List.append_nil, ringLog_dataProcess]
    simp [ringAccesses, ringCall]
  · simp only [processRing, if_neg h]
    exact ⟨rfl, rfl⟩

/-- The calls are those of the interrupt: they leave the ring it leaves, and
their accesses are those it logs. -/
theorem kbi7Isr_calls (s : Receiver) (delta : UInt16) :
    (edgeStep s delta).ring = run ringNext s.ring (isrCalls s delta) ∧
      ringLog (log (kbi7Isr s delta)) = ringAccesses s.ring (isrCalls s delta) := by
  have hstart : (searchStart (capture s delta)).ring = s.ring := by rw [searchStart_ring, capture_ring]
  obtain ⟨hring, hlog⟩ := recordEdge_calls (searchStart (capture s delta))
  obtain ⟨hring', hlog'⟩ := processRing_calls (val (recordEdge (searchStart (capture s delta))))
  rw [hstart] at hring hlog
  rw [hring] at hring' hlog'
  constructor
  · rw [edgeStep, kbi7Isr_val, hring', isrCalls, run_append]
  · have hsplit : log (kbi7Isr s delta) = log (recordEdge (searchStart (capture s delta))) ++
        log (processRing (val (recordEdge (searchStart (capture s delta))))) := by
      simp only [kbi7Isr, log_bind]
    rw [hsplit, ringLog_append, hlog, hlog', isrCalls, ringAccesses_append]

/-- What a sequence of interrupts logs. -/
def edgesLog : Receiver → List UInt16 → List RxEvent
  | _, [] => []
  | s, delta :: deltas => log (kbi7Isr s delta) ++ edgesLog (edgeStep s delta) deltas

/-- And so for a run of edges. -/
theorem run_edgesCalls (s : Receiver) (deltas : List UInt16) :
    (run edgeStep s deltas).ring = run ringNext s.ring (edgesCalls s deltas) ∧
      ringLog (edgesLog s deltas) = ringAccesses s.ring (edgesCalls s deltas) := by
  induction deltas generalizing s with
  | nil => exact ⟨rfl, rfl⟩
  | cons delta deltas ih =>
    obtain ⟨hring, hlog⟩ := kbi7Isr_calls s delta
    obtain ⟨hring', hlog'⟩ := ih (edgeStep s delta)
    rw [run_cons, edgesCalls, edgesLog, hring', run_append, ringLog_append, hlog, hlog', ringAccesses_append, hring]
    exact ⟨rfl, rfl⟩

/-! ## What is in the ring -/

/-- What was pushed since the last reset, oldest first. -/
def sinceReset (l : List Int16) : RingCall → List Int16
  | .push v => l ++ [v]
  | .reset => []
  | _ => l

/-- A push into a ring that is not full; nothing is removed. -/
def RingCall.Unwrapped (ring : RingBufS) : RingCall → Prop
  | .push _ => ring.count.toNat < 1024
  | .removeTail _ => False
  | _ => True

variable {ring : RingBufS} {l : List Int16}

theorem RingIs.count_eq (h : RingIs ring l) : ring.count.toNat = l.length := by
  obtain ⟨-, q, rfl, hq⟩ := h
  exact hq.count

theorem RingIs.head_eq (h : RingIs ring l) : ring.head = ring.count := by
  obtain ⟨htail, q, rfl, hq⟩ := h
  refine UInt16.toNat_inj.mp ?_
  rw [hq.head, htail]
  exact Nat.zero_add _

theorem RingIs.next (h : RingIs ring l) (call : RingCall) (hcall : call.Unwrapped ring) :
    RingIs (ringNext ring call) (sinceReset l call) := by
  cases call with
  | push v => exact h.push v (by rw [← h.count_eq]; exact hcall)
  | get pPos => exact h
  | removeTail nb => exact hcall.elim
  | reset => exact h.reset

/-- The interval is pushed while the countdown runs, and the ring is read and
emptied at its end. -/
theorem isrCalls_eq (s : Receiver) (delta : UInt16) :
    isrCalls s delta = (if s.record ≠ 0 ∨ StartMark (capture s delta) then [.push (capture s delta).transCur] else []) ++
      if s.record = 2 then dataProcessCalls HE_BITLEN 0 ++ [.reset] else [] := by
  have htrans : (searchStart (capture s delta)).transCur = (capture s delta).transCur := by
    unfold searchStart
    split <;> [split <;> rfl; rfl]
  simp only [isrCalls, htrans, searchStart_pos_iff, countdown_eq_one]

/-- What one interrupt does to the countdown, and the ring calls it makes. -/
theorem isr_cases (s : Receiver) (delta : UInt16) :
    (s.record = 0 ∧ (edgeStep s delta).record = 0 ∧ isrCalls s delta = []) ∨
    (s.record = 0 ∧ (edgeStep s delta).record = 127 ∧ isrCalls s delta = [.push (capture s delta).transCur]) ∨
    (s.record ≠ 0 ∧ s.record ≠ 2 ∧ (edgeStep s delta).record = s.record - 1 ∧
      isrCalls s delta = [.push (capture s delta).transCur]) ∨
    (s.record = 2 ∧ (edgeStep s delta).record = 1 ∧
      isrCalls s delta = .push (capture s delta).transCur :: (dataProcessCalls HE_BITLEN 0 ++ [.reset])) := by
  rw [isrCalls_eq]
  by_cases h0 : s.record = 0
  · have h2 : s.record ≠ 2 := by rw [h0]; decide
    by_cases hs : StartMark (capture s delta)
    · refine .inr (.inl ⟨h0, by rw [edgeStep, kbi7Isr_start h0 hs]; rfl, ?_⟩)
      rw [if_pos (.inr hs), if_neg h2, List.append_nil]
    · refine .inl ⟨h0, by rw [edgeStep, kbi7Isr_idle h0 hs, capture_record, h0], ?_⟩
      rw [if_neg fun h => h.elim (· h0) hs, if_neg h2, List.append_nil]
  · by_cases h2 : s.record = 2
    · refine .inr (.inr (.inr ⟨h2, by rw [edgeStep, kbi7Isr_last h2]; rfl, ?_⟩))
      rw [if_pos (.inl h0), if_pos h2, List.singleton_append]
    · refine .inr (.inr (.inl ⟨h0, h2, by rw [edgeStep, kbi7Isr_record h0 h2]; rfl, ?_⟩))
      rw [if_pos (.inl h0), if_neg h2, List.append_nil]

/-! ## All runs -/

/-- The ring of a receiver holds `l`: with the countdown above 1, all but as
many of 128 or 129 elements as are still to come. -/
structure StayOk (s : Receiver) (l : List Int16) : Prop where
  ring : RingIs s.ring l
  record : s.record.toNat ≤ 128
  idle : s.record = 0 → l.length ≤ 1
  last : s.record = 1 → l = []
  running : 1 < s.record.toNat → l.length + s.record.toNat = 128 ∨ l.length + s.record.toNat = 129

theorem StayOk.length_le {s : Receiver} {l : List Int16} (h : StayOk s l) : l.length ≤ 127 := by
  have hidle := h.idle
  have hlast := h.last
  have hrunning := h.running
  rcases Nat.lt_trichotomy s.record.toNat 1 with hlt | heq | hgt
  · have := hidle (UInt8.toNat_inj.mp (by rw [UInt8.toNat_zero]; omega))
    omega
  · rw [hlast (UInt8.toNat_inj.mp (by rw [heq]; rfl))]
    exact Nat.zero_le _
  · have := hrunning hgt
    omega

theorem guarded_dataProcessCalls (ring : RingBufS) :
    ∀ n i, Guarded ringNext (fun r call => call.Unwrapped r) ring (dataProcessCalls n i)
  | 0, _ => trivial
  | n + 1, i => ⟨trivial, trivial, guarded_dataProcessCalls ring n (i + 1)⟩

theorem StayOk.guarded {s : Receiver} {l : List Int16} (h : StayOk s l) (delta : UInt16) :
    Guarded ringNext (fun r call => call.Unwrapped r) s.ring (isrCalls s delta) := by
  have hpush (v : Int16) : RingCall.Unwrapped s.ring (.push v) := by
    have := h.length_le
    show s.ring.count.toNat < 1024
    rw [h.ring.count_eq]
    omega
  rw [isrCalls_eq, Guarded.append]
  refine ⟨?_, ?_⟩
  · split
    · exact ⟨hpush _, trivial⟩
    · trivial
  · by_cases h2 : s.record = 2
    · rw [if_pos h2, Guarded.append]
      exact ⟨guarded_dataProcessCalls _ _ _, trivial, trivial⟩
    · rw [if_neg h2]
      trivial

theorem run_sinceReset_last (l : List Int16) (v : Int16) (gets : List RingCall) :
    run sinceReset l (.push v :: (gets ++ [.reset])) = [] := by
  rw [run_cons, run_append]
  rfl

theorem StayOk.step {s : Receiver} {l : List Int16} (h : StayOk s l) (delta : UInt16) :
    StayOk (edgeStep s delta) (run sinceReset l (isrCalls s delta)) := by
  have hring : RingIs (edgeStep s delta).ring (run sinceReset l (isrCalls s delta)) := by
    rw [(kbi7Isr_calls s delta).1]
    exact Guarded.simulation (R := RingIs) (fun _ _ call hr hok => hr.next call hok) h.ring (h.guarded delta)
  rcases isr_cases s delta with ⟨h0, hrec, hcalls⟩ | ⟨h0, hrec, hcalls⟩ | ⟨h0, h2, hrec, hcalls⟩ |
    ⟨h2, hrec, hcalls⟩
  · -- No recording: nothing is pushed.
    rw [hcalls] at hring ⊢
    refine ⟨hring, by rw [hrec]; decide, fun _ => h.idle h0, fun h1 => ?_, fun h1 => ?_⟩
    · rw [hrec] at h1
      cases h1
    · rw [hrec] at h1
      cases h1
  · -- The start: with what a recording may have left, one or two elements.
    have hlen := h.idle h0
    rw [hcalls] at hring ⊢
    refine ⟨hring, by rw [hrec]; decide, fun h1 => ?_, fun h1 => ?_, fun _ => ?_⟩
    · rw [hrec] at h1
      cases h1
    · rw [hrec] at h1
      cases h1
    · rw [hrec]
      show (l ++ [_]).length + 127 = 128 ∨ (l ++ [_]).length + 127 = 129
      simp only [List.length_append, List.length_singleton]
      omega
  · have hne0 : s.record.toNat ≠ 0 := fun he => h0 (UInt8.toNat_inj.mp he)
    have hne2 : s.record.toNat ≠ 2 := fun he => h2 (UInt8.toNat_inj.mp he)
    have hsub : (edgeStep s delta).record.toNat = s.record.toNat - 1 := by
      rw [hrec]
      exact UInt8.toNat_sub_of_le _ _ (UInt8.le_iff_toNat_le.mpr (Nat.pos_of_ne_zero hne0))
    have hle := h.record
    have hlength : (run sinceReset l [.push (capture s delta).transCur]).length = l.length + 1 := List.length_append
    rw [hcalls] at hring ⊢
    refine ⟨hring, by omega, fun h1 => ?_, fun h1 => ?_, fun h1 => ?_⟩
    · -- The interval after the reset.
      rw [h1, UInt8.toNat_zero] at hsub
      have hone : s.record = 1 := UInt8.toNat_inj.mp (by rw [UInt8.toNat_one]; omega)
      rw [hlength, h.last hone]
      exact Nat.le_refl 1
    · rw [h1, UInt8.toNat_one] at hsub
      omega
    · have := h.running (by omega)
      rw [hlength, hsub]
      omega
  · -- The end of the countdown: the ring is emptied.
    rw [hcalls, run_sinceReset_last] at hring ⊢
    refine ⟨hring, by rw [hrec]; decide, fun _ => Nat.zero_le _, fun _ => rfl, fun h1 => ?_⟩
    rw [hrec] at h1
    exact absurd h1 (by decide)

theorem StayOk.edges {s : Receiver} {l : List Int16} (h : StayOk s l) (deltas : List UInt16) :
    StayOk (run edgeStep s deltas) (run sinceReset l (edgesCalls s deltas)) ∧
      Guarded ringNext (fun r call => call.Unwrapped r) s.ring (edgesCalls s deltas) := by
  induction deltas generalizing s l with
  | nil => exact ⟨h, trivial⟩
  | cons delta deltas ih =>
    obtain ⟨hrun, hguard⟩ := ih (h.step delta)
    refine ⟨?_, ?_⟩
    · rw [run_cons, edgesCalls, run_append]
      exact hrun
    · rw [edgesCalls, Guarded.append, ← (kbi7Isr_calls s delta).1]
      exact ⟨h.guarded delta, hguard⟩

theorem stayOk_init {s : Receiver} {ring : RingBufS} (hring : s.ring = (ringInit ring 1024).2) (hrec : s.record = 0) :
    StayOk s [] := by
  refine ⟨?_, by rw [hrec]; decide, fun _ => Nat.zero_le 1, fun _ => rfl, fun h => ?_⟩
  · rw [hring]
    exact ⟨rfl, .empty, rfl, (ringInit_holds ring 1024 (Nat.le_refl _)).2⟩
  · rw [hrec] at h
    exact absurd h (by decide)

/-- **The receiver's ring never wraps**, whatever edges come after
`ring_init(&ring, 1024)`: its tail stays at 0, it holds at most 128 elements,
128 or 129 of which the countdown completes, and what `data_process` gets at
an index below the count was pushed there since the last reset. The calls this
is said of leave the ring that the interrupts leave, and touch the elements
that they log. -/
theorem ring_never_wraps (s : Receiver) (ring : RingBufS) (hring : s.ring = (ringInit ring 1024).2)
    (hrec : s.record = 0) (deltas : List UInt16) :
    (let t := run edgeStep s deltas
     t.ring.tail = 0 ∧ t.ring.head = t.ring.count ∧ t.ring.count ≤ 128 ∧ t.record ≤ 128 ∧
       (t.record > 1 → t.ring.count.toNat + t.record.toNat = 128 ∨ t.ring.count.toNat + t.record.toNat = 129)) ∧
    (∀ pre pPos, pre ++ [.get pPos] <+: edgesCalls s deltas → pPos < (run ringNext s.ring pre).count →
      (run sinceReset [] pre)[pPos.toNat]? = some (val (ringGet (run ringNext s.ring pre) pPos))) ∧
    (run edgeStep s deltas).ring = run ringNext s.ring (edgesCalls s deltas) ∧
      ringLog (edgesLog s deltas) = ringAccesses s.ring (edgesCalls s deltas) := by
  obtain ⟨hstay, hguard⟩ := (stayOk_init hring hrec).edges deltas
  refine ⟨?_, ?_, run_edgesCalls s deltas⟩
  · have hlen := hstay.length_le
    have hcount := hstay.ring.count_eq
    refine ⟨hstay.ring.tail, hstay.ring.head_eq, ?_, UInt8.le_iff_toNat_le.mpr hstay.record, fun hgt => ?_⟩
    · rw [UInt16.le_iff_toNat_le, hcount]
      exact Nat.le_succ_of_le hlen
    · rw [hcount]
      exact hstay.running (UInt8.lt_iff_toNat_lt.mp hgt)
  · intro pre pPos hpre hlt
    have hholds : RingIs (run ringNext s.ring pre) (run sinceReset [] pre) :=
      Guarded.simulation (R := RingIs) (fun _ _ call hr hok => hr.next call hok) (stayOk_init hring hrec).ring
        (hguard.of_prefix ((List.prefix_append pre _).trans hpre))
    rw [UInt16.lt_iff_toNat_lt, hholds.count_eq] at hlt
    have hget := hholds.get pPos.toNat_lt
    rw [UInt16.ofNat_toNat] at hget
    rw [hget, List.getElem?_eq_getElem hlt, List.getD_eq_getElem?_getD, List.getElem?_eq_getElem hlt]
    rfl

/-- A start mark and 64 pairs. -/
theorem ring_never_wraps_burst :
    let deltas := 52 :: 502 :: List.replicate 128 52
    (let t := run edgeStep .boot deltas
     t.ring.tail = 0 ∧ t.ring.head = t.ring.count ∧ t.ring.count ≤ 128 ∧ t.record ≤ 128 ∧
       (t.record > 1 → t.ring.count.toNat + t.record.toNat = 128 ∨ t.ring.count.toNat + t.record.toNat = 129)) ∧
    (∀ pre pPos, pre ++ [.get pPos] <+: edgesCalls .boot deltas → pPos < (run ringNext Receiver.boot.ring pre).count →
      (run sinceReset [] pre)[pPos.toNat]? = some (val (ringGet (run ringNext Receiver.boot.ring pre) pPos))) ∧
    (run edgeStep .boot deltas).ring = run ringNext Receiver.boot.ring (edgesCalls .boot deltas) ∧
      ringLog (edgesLog .boot deltas) = ringAccesses Receiver.boot.ring (edgesCalls .boot deltas) :=
  ring_never_wraps .boot _ rfl rfl (52 :: 502 :: List.replicate 128 52)

end OflMetrics
