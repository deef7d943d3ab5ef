/-
What `data_process` and `kbi7_isr` do.

* `dataProcess_val`: the 64 characters of the ring's pairs and a zero go to
  slot `msg_cnt`, the count goes up by one, nothing else changes.
* `kbi7Isr_idle`, `kbi7Isr_start`, `kbi7Isr_record` and `kbi7Isr_last`:
  the four things one interrupt can do.
* `RingIs`: the ring as the list it holds; the receiver's ring never wraps.
* `omni_run_inv`: at most one element is left in the ring of an idle receiver.
-/
import OflMetrics.Omniradio.Receiver
import OflMetrics.RingFifo

namespace OflMetrics

open Embed Embed.Traced

/-! ## The tolerances, in microseconds -/

theorem highPulse_iff {d : Int16} : HighPulse d ↔ 137 < d.toInt ∧ d.toInt < 412 := Iff.rfl
theorem lowPulse_275_iff {d : Int16} : LowPulse 275 d ↔ -412 < d.toInt ∧ d.toInt < -137 := Iff.rfl
theorem lowPulse_1225_iff {d : Int16} : LowPulse 1225 d ↔ -1837 < d.toInt ∧ d.toInt < -612 := Iff.rfl
theorem lowPulse_2675_iff {d : Int16} : LowPulse 2675 d ↔ -4012 < d.toInt ∧ d.toInt < -1337 := Iff.rfl

/-! ## `data_process` -/

/-- The character of the ring's `i`-th pair. -/
def pairChar (ring : RingBufS) (i : Nat) : Char :=
  heChar (val (ringGet ring (UInt16.ofNat (i * 2)))) (val (ringGet ring (UInt16.ofNat (i * 2 + 1))))

theorem dataProcessLoop_val (ring : RingBufS) (msgCnt : UInt16) :
    ∀ n i msgBuf, val (dataProcessLoop ring msgCnt n i msgBuf) =
      Mem.copy msgBuf (100 * msgCnt.toNat + i) (fun k => pairChar ring (i + k)) n
  | 0, i, msgBuf => by
    funext k
    simp [dataProcessLoop, Mem.copy]
  | n + 1, i, msgBuf => by
    simp only [dataProcessLoop, val_bind, dataProcessLoop_val ring msgCnt n]
    funext k
    simp only [Mem.copy, val_mapLog]
    by_cases hk : k = 100 * msgCnt.toNat + i
    · subst hk
      rw [if_neg (by omega), if_pos (by omega), Function.update_self, Nat.sub_self]
      rfl
    · rw [Function.update_of_ne hk]
      split
      · next h =>
        rw [if_pos (by omega)]
        congr 1
        omega
      · next h => rw [if_neg (by omega)]

/-- Slot `j` of `msgBuf` after the message of `ring` is stored there. -/
def storeMessage (ring : RingBufS) (j : Nat) (msgBuf : Mem Char) : Mem Char :=
  Function.update (Mem.copy msgBuf (100 * j) (pairChar ring) HE_BITLEN) (100 * j + HE_BITLEN) '\x00'

/-- The text of the message in `ring`. -/
def ringText (ring : RingBufS) : List Char := (List.range HE_BITLEN).map (pairChar ring)

theorem dataProcess_val (s : Receiver) :
    val (dataProcess s) =
      { s with msgBuf := storeMessage s.ring s.msgCnt.toNat s.msgBuf, msgCnt := s.msgCnt + 1 } := by
  simp only [dataProcess, val_bind, val_pure, dataProcessLoop_val, Nat.add_zero, Nat.zero_add]
  rfl

theorem storeMessage_slice (ring : RingBufS) (j : Nat) (msgBuf : Mem Char) :
    (storeMessage ring j msgBuf).slice (100 * j) HE_BITLEN = ringText ring := by
  refine List.ext_getElem (by simp [ringText]) fun i hi _ => ?_
  simp only [Mem.length_slice] at hi
  simp [storeMessage, Mem.copy, ringText, hi, show i ≠ HE_BITLEN by omega]

theorem storeMessage_nul (ring : RingBufS) (j : Nat) (msgBuf : Mem Char) :
    storeMessage ring j msgBuf (100 * j + HE_BITLEN) = '\x00' := by
  simp [storeMessage]

/-- A byte outside the slot's 65 is unchanged. -/
theorem storeMessage_other (ring : RingBufS) (j : Nat) (msgBuf : Mem Char) {i : Nat}
    (h : i < 100 * j ∨ 100 * j + HE_BITLEN < i) : storeMessage ring j msgBuf i = msgBuf i := by
  rw [storeMessage, Function.update_of_ne (by omega), Mem.copy_apply_other (by omega)]

theorem heChar_ne_nul (d0 d1 : Int16) : heChar d0 d1 ≠ '\x00' := by
  unfold heChar
  split
  · decide
  · split <;> decide

/-- What is printed of a slot just stored is the message. -/
theorem slotText_storeMessage (ring : RingBufS) {j : Nat} (msgBuf : Mem Char) (hj : j < 10) :
    slotText (storeMessage ring j msgBuf) j = ringText ring := by
  have hlen : (ringText ring).length = HE_BITLEN := by simp [ringText]
  refine Mem.cstr_eq ?_ ?_ ?_ ?_
  · rw [hlen]; exact storeMessage_slice ring j msgBuf
  · rw [hlen]; exact storeMessage_nul ring j msgBuf
  · intro c hc
    simp only [ringText, List.mem_map] at hc
    obtain ⟨i, -, rfl⟩ := hc
    exact heChar_ne_nul _ _
  · rw [hlen, HE_BITLEN, msgBufSize]; omega

/-! ## One interrupt -/

def edgeStep (s : Receiver) (c : UInt16) : Receiver := val (kbi7Isr s c)

theorem omniStep_edge (m : Omniradio) (c : UInt16) : omniStep m (.edge c) = { m with rx := edgeStep m.rx c } := by
  rw [omniStep, edgeStep]

/-- The pattern that starts a recording. -/
def StartMark (s : Receiver) : Prop := HighPulse s.transPrev ∧ LowPulse 2675 s.transCur

instance (s : Receiver) : Decidable (StartMark s) := inferInstanceAs (Decidable (_ ∧ _))

section Capture

variable (s : Receiver) (c : UInt16)

@[simp] theorem capture_record : (capture s c).record = s.record := by
  simp only [capture]; split <;> [rfl; split <;> rfl]
@[simp] theorem capture_ring : (capture s c).ring = s.ring := by
  simp only [capture]; split <;> [rfl; split <;> rfl]
@[simp] theorem capture_msgBuf : (capture s c).msgBuf = s.msgBuf := by
  simp only [capture]; split <;> [rfl; split <;> rfl]
@[simp] theorem capture_msgCnt : (capture s c).msgCnt = s.msgCnt := by
  simp only [capture]; split <;> [rfl; split <;> rfl]
@[simp] theorem capture_transPrev : (capture s c).transPrev = s.transCur := by
  simp only [capture]; split <;> [rfl; split <;> rfl]

end Capture

/-- `s` with its last interval pushed and the countdown at `r`. -/
def Receiver.pushed (s : Receiver) (r : UInt8) : Receiver :=
  { s with ring := val (ringPush s.ring s.transCur), record := r }

section Pushed

variable (s : Receiver) (r : UInt8)

@[simp] theorem pushed_record : (s.pushed r).record = r := rfl
@[simp] theorem pushed_ring : (s.pushed r).ring = val (ringPush s.ring s.transCur) := rfl
@[simp] theorem pushed_msgBuf : (s.pushed r).msgBuf = s.msgBuf := rfl
@[simp] theorem pushed_msgCnt : (s.pushed r).msgCnt = s.msgCnt := rfl
@[simp] theorem pushed_bEdgeDirection : (s.pushed r).bEdgeDirection = s.bEdgeDirection := rfl

end Pushed

theorem kbi7Isr_val (s : Receiver) (c : UInt16) :
    val (kbi7Isr s c) = val (processRing (val (recordEdge (searchStart (capture s c))))) := by
  simp only [kbi7Isr, val_bind]

theorem searchStart_of_ne {s : Receiver} (h : s.record ≠ 0) : searchStart s = s := if_neg h

theorem searchStart_idle {s : Receiver} (h : s.record = 0) (hs : ¬ StartMark s) : searchStart s = s := by
  rw [searchStart, if_pos h]
  exact if_neg hs

theorem searchStart_start {s : Receiver} (h : s.record = 0) (hs : StartMark s) :
    searchStart s = { s with record := 128 } := by
  rw [searchStart, if_pos h]
  exact if_pos hs

theorem record_pos {s : Receiver} (h : s.record ≠ 0) : s.record > 0 := by
  rw [gt_iff_lt, UInt8.lt_iff_toNat_lt]
  exact Nat.pos_of_ne_zero fun he => h (UInt8.toNat_inj.mp he)

theorem recordEdge_zero {s : Receiver} (h : s.record = 0) : val (recordEdge s) = s := by
  rw [recordEdge, if_neg (by rw [h]; decide)]
  rfl

theorem recordEdge_val {s : Receiver} (h : s.record > 0) : val (recordEdge s) = s.pushed (s.record - 1) := by
  simp only [recordEdge, if_pos h]
  rfl

theorem processRing_val {s : Receiver} (h : s.record ≠ 1) : val (processRing s) = s := by
  simp only [processRing, if_neg h, val_pure]

theorem processRing_one {s : Receiver} (h : s.record = 1) :
    val (processRing s) = { val (dataProcess s) with ring := ringReset (val (dataProcess s)).ring } := by
  simp only [processRing, if_pos h, val_bind, val_pure]

theorem kbi7Isr_idle {s : Receiver} {c : UInt16} (h : s.record = 0) (hs : ¬ StartMark (capture s c)) :
    val (kbi7Isr s c) = capture s c := by
  have hrec : (capture s c).record = 0 := by rw [capture_record, h]
  rw [kbi7Isr_val, searchStart_idle hrec hs, recordEdge_zero hrec]
  exact processRing_val (by rw [hrec]; decide)

theorem kbi7Isr_start {s : Receiver} {c : UInt16} (h : s.record = 0) (hs : StartMark (capture s c)) :
    val (kbi7Isr s c) = (capture s c).pushed 127 := by
  have hrec : (capture s c).record = 0 := by rw [capture_record, h]
  have hpos : ({ capture s c with record := 128 } : Receiver).record > 0 := show (128 : UInt8) > 0 by decide
  have hdec : (128 : UInt8) - 1 = 127 := by decide
  have hedge : val (recordEdge { capture s c with record := 128 }) = (capture s c).pushed 127 := by
    rw [recordEdge_val hpos]
    simp only [Receiver.pushed, hdec]
  rw [kbi7Isr_val, searchStart_start hrec hs, hedge]
  exact processRing_val (show (127 : UInt8) ≠ 1 by decide)

theorem kbi7Isr_record {s : Receiver} {c : UInt16} (h : s.record ≠ 0) (h2 : s.record ≠ 2) :
    val (kbi7Isr s c) = (capture s c).pushed (s.record - 1) := by
  have hrec : (capture s c).record = s.record := capture_record s c
  have hne : (capture s c).record ≠ 0 := by rw [hrec]; exact h
  rw [kbi7Isr_val, searchStart_of_ne hne, recordEdge_val (record_pos hne), hrec]
  refine processRing_val fun he => h2 ?_
  have hone : s.record - 1 = 1 := he
  calc s.record = s.record - 1 + 1 := (UInt8.sub_add_cancel _ _).symm
    _ = 2 := by rw [hone]; rfl

/-- The interrupt that ends a recording: the message is decoded from the ring
as it then is, and the ring is emptied. -/
theorem kbi7Isr_last {s : Receiver} {c : UInt16} (h : s.record = 2) :
    val (kbi7Isr s c) =
      { (capture s c).pushed 1 with
        msgBuf := storeMessage ((capture s c).pushed 1).ring s.msgCnt.toNat s.msgBuf
        msgCnt := s.msgCnt + 1
        ring := ringReset ((capture s c).pushed 1).ring } := by
  have hrec : (capture s c).record = 2 := by rw [capture_record, h]
  rw [kbi7Isr_val, searchStart_of_ne (by rw [hrec]; decide), recordEdge_val (by rw [hrec]; decide), hrec,
    processRing_one (show (2 - 1 : UInt8) = 1 by decide), dataProcess_val]
  simp [Receiver.pushed]

/-- The level and its length are what `capture` makes of them. -/
theorem edgeStep_captured (s : Receiver) (c : UInt16) :
    (edgeStep s c).bEdgeDirection = (capture s c).bEdgeDirection ∧ (edgeStep s c).transCur = (capture s c).transCur := by
  by_cases h0 : s.record = 0
  · by_cases hs : StartMark (capture s c)
    · rw [edgeStep, kbi7Isr_start h0 hs]
      exact ⟨rfl, rfl⟩
    · rw [edgeStep, kbi7Isr_idle h0 hs]
      exact ⟨rfl, rfl⟩
  · by_cases h2 : s.record = 2
    · rw [edgeStep, kbi7Isr_last h2]
      exact ⟨rfl, rfl⟩
    · rw [edgeStep, kbi7Isr_record h0 h2]
      exact ⟨rfl, rfl⟩

/-- Whether the interval is pushed. -/
theorem searchStart_pos_iff (s : Receiver) (c : UInt16) :
    (searchStart (capture s c)).record > 0 ↔ s.record ≠ 0 ∨ StartMark (capture s c) := by
  have hrec : (capture s c).record = s.record := capture_record s c
  by_cases h0 : s.record = 0
  · by_cases hs : StartMark (capture s c)
    · rw [searchStart_start (hrec.trans h0) hs]
      exact iff_of_true (show (128 : UInt8) > 0 by decide) (.inr hs)
    · rw [searchStart_idle (hrec.trans h0) hs, hrec, h0]
      exact iff_of_false (by decide) fun h => h.elim (· rfl) hs
  · have hne : (capture s c).record ≠ 0 := by rw [hrec]; exact h0
    rw [searchStart_of_ne hne]
    exact iff_of_true (record_pos hne) (.inl h0)

/-- The countdown that `processRing` sees. -/
theorem countdown (s : Receiver) (c : UInt16) :
    (val (recordEdge (searchStart (capture s c)))).record =
      if s.record = 0 then if StartMark (capture s c) then 127 else 0 else s.record - 1 := by
  have hrec : (capture s c).record = s.record := capture_record s c
  by_cases h0 : s.record = 0
  · by_cases hs : StartMark (capture s c)
    · have hpos : ({ capture s c with record := 128 } : Receiver).record > 0 := show (128 : UInt8) > 0 by decide
      rw [searchStart_start (hrec.trans h0) hs, if_pos h0, if_pos hs, recordEdge_val hpos]
      exact show (128 : UInt8) - 1 = 127 by decide
    · rw [searchStart_idle (hrec.trans h0) hs, if_pos h0, if_neg hs, recordEdge_zero (hrec.trans h0)]
      exact hrec.trans h0
  · have hne : (capture s c).record ≠ 0 := by rw [hrec]; exact h0
    rw [searchStart_of_ne hne, recordEdge_val (record_pos hne), if_neg h0, pushed_record, hrec]

theorem countdown_eq_one (s : Receiver) (c : UInt16) :
    (val (recordEdge (searchStart (capture s c)))).record = 1 ↔ s.record = 2 := by
  rw [countdown]
  split
  · next h0 =>
    rw [h0]
    split <;> decide
  · constructor
    · intro h
      rw [← UInt8.sub_add_cancel s.record 1, h]
      rfl
    · intro h
      rw [h]
      rfl

/-! ## The ring -/

/-- The ring holds `l`, oldest first, and nothing was removed from it. -/
structure RingIs (ring : RingBufS) (l : List Int16) : Prop where
  tail : ring.tail = 0
  holds : ∃ q : Fifo Int16 1024, q.items = l ∧ RingHolds ring q

variable {ring : RingBufS} {l : List Int16}

theorem RingIs.push (h : RingIs ring l) (v : Int16) (hl : l.length < 1024) :
    RingIs (val (ringPush ring v)) (l ++ [v]) := by
  obtain ⟨htail, q, rfl, hq⟩ := h
  have hhead : ring.head.toNat = q.items.length := by rw [hq.head, htail, hq.count]; simp
  have hne : ring.head ≠ ring.size := fun he => by
    have := hq.size
    rw [← he, hhead] at this
    omega
  have hc : ring.count < ring.size := by
    rw [UInt16.lt_iff_toNat_lt, hq.size, hq.count]
    exact hl
  refine ⟨?_, q.push v, Fifo.push_items q v hl, hq.push v (Nat.le_refl _) hne⟩
  simp [ringPush, moduloInc, hc, htail]

theorem RingIs.reset (h : RingIs ring l) : RingIs (ringReset ring) [] := by
  obtain ⟨htail, q, rfl, hq⟩ := h
  exact ⟨htail, .empty, rfl, hq.reset⟩

theorem RingIs.get (h : RingIs ring l) {i : Nat} (hi : i < 65536) :
    val (ringGet ring (UInt16.ofNat i)) = l.getD i 0 := by
  obtain ⟨htail, q, rfl, hq⟩ := h
  rcases Nat.lt_or_ge i q.items.length with hlt | hge
  · rw [hq.get (Nat.le_refl _) hlt]
    simp [List.getD_eq_getElem?_getD, hlt]
  · have hnot : ¬ UInt16.ofNat i < ring.count := by
      rw [UInt16.lt_iff_toNat_lt, hq.count, UInt16.toNat_ofNat']
      omega
    simp [ringGet, hnot, List.getD_eq_getElem?_getD, hge]

/-! ## All runs -/

/-- How many elements the ring can hold when the countdown is at `r`. -/
def RecordOk (r : UInt8) (n : Nat) : Prop :=
  (r = 0 → n ≤ 1) ∧ (r = 1 → n = 0) ∧ (2 ≤ r.toNat → n + r.toNat ≤ 129)

theorem recordOk_start {n : Nat} (h : n ≤ 2) : RecordOk 127 n :=
  ⟨fun he => absurd he (by decide), fun he => absurd he (by decide), fun _ => Nat.add_le_add_right h 127⟩

theorem recordOk_last : RecordOk 1 0 := ⟨fun _ => Nat.zero_le 1, fun _ => rfl, fun he => absurd he (by decide)⟩

def ReceiverInv (s : Receiver) : Prop := ∃ l, RingIs s.ring l ∧ RecordOk s.record l.length

theorem boot_inv : ReceiverInv .boot :=
  ⟨[], ⟨rfl, .empty, rfl, (ringInit_holds _ 1024 (Nat.le_refl _)).2⟩, fun _ => Nat.zero_le _, fun _ => rfl,
    fun h => absurd h (by decide)⟩

theorem kbi7Isr_inv {s : Receiver} (c : UInt16) (h : ReceiverInv s) : ReceiverInv (val (kbi7Isr s c)) := by
  obtain ⟨l, hring, hzero, hone, hmany⟩ := h
  have hring' : RingIs (capture s c).ring l := by rw [capture_ring]; exact hring
  by_cases h0 : s.record = 0
  · have hl := hzero h0
    by_cases hs : StartMark (capture s c)
    · rw [kbi7Isr_start h0 hs]
      exact ⟨_, hring'.push _ (by omega), recordOk_start (by simpa using hl)⟩
    · rw [kbi7Isr_idle h0 hs]
      refine ⟨l, hring', ?_⟩
      rw [capture_record]
      exact ⟨hzero, hone, hmany⟩
  · have hpos : s.record.toNat ≠ 0 := fun he => h0 (UInt8.toNat_inj.mp he)
    have hlen : l.length + s.record.toNat ≤ 129 := by
      by_cases h1 : s.record = 1
      · rw [hone h1, h1]
        decide
      · have : s.record.toNat ≠ 1 := fun he => h1 (UInt8.toNat_inj.mp he)
        exact hmany (by omega)
    by_cases h2 : s.record = 2
    · rw [kbi7Isr_last h2]
      exact ⟨[], (hring'.push _ (by omega)).reset, recordOk_last⟩
    · have hsub : (s.record - 1).toNat = s.record.toNat - 1 :=
        UInt8.toNat_sub_of_le _ _ (UInt8.le_iff_toNat_le.mpr (Nat.pos_of_ne_zero hpos))
      have hne : s.record.toNat ≠ 2 := fun he => h2 (UInt8.toNat_inj.mp he)
      rw [kbi7Isr_record h0 h2]
      refine ⟨_, hring'.push _ (by omega), fun he => ?_, fun he => ?_, fun _ => ?_⟩
      · have h1 : s.record = 1 := UInt8.toNat_inj.mp (by
          have hz : (s.record - 1).toNat = 0 := by rw [show s.record - 1 = 0 from he]; rfl
          rw [show (1 : UInt8).toNat = 1 from rfl]
          omega)
        simp [hone h1]
      · have hz : (s.record - 1).toNat = 1 := by rw [show s.record - 1 = 1 from he]; rfl
        omega
      · show (l ++ [_]).length + (s.record - 1).toNat ≤ 129
        simp only [List.length_append, List.length_singleton]
        omega

theorem drainStep_inv {m : Omniradio} (h : ReceiverInv m.rx) : ReceiverInv (drainStep m).rx := by
  obtain ⟨l, hring, hrec⟩ := h
  unfold drainStep
  split
  · split <;> exact ⟨l, hring, hrec⟩
  · split <;> exact ⟨l, hring, hrec⟩

theorem omni_run_inv (steps : List OmniStep) : ReceiverInv (run omniStep .boot steps).rx := by
  refine run_invariant (I := fun m : Omniradio => ReceiverInv m.rx) (fun m step h => ?_) boot_inv
  cases step with
  | edge c =>
    simp only [omniStep]
    exact kbi7Isr_inv c h
  | drain => exact drainStep_inv h

end OflMetrics
