/-
The main loop of `oflnode.c`, one cycle at a time: report, drain of the
receive queue, send, watchdog check, sleep.

`mainLoop` is a cycle; it returns no state when it calls `reset_watchdog`,
which does not return. `goto the_end`, taken when `get_free_packet` has no
buffer, skips `rad_off` and the watchdog check.

* `mainLoop_count`: what a cycle does to `main_loop_count`.
* `reset_iff`: when a cycle triggers the reset.
* `resetOnTime_iff`: the reset comes in the first overdue cycle exactly when
  there is a buffer in it.
-/
import OflMetrics.Node.Report

namespace OflMetrics

open Embed Embed.Traced

/-- `SLEEP_DELAY`. -/
def SLEEP_DELAY : UInt32 := 60

/-- `NODE_ID`, unless the build sets it. -/
def NODE_ID : UInt8 := 0x99

/-- The globals of the main loop. -/
structure NodeState where
  config : ConfigT
  bme280Presence : Bool
  mainLoopCount : UInt32
  cntrMsgSent : UInt32
  txPaquet : Paquet

/-- What the outside delivers in one cycle. -/
structure CycleInput where
  readings : Readings
  /-- The buffers `rx_packet` returns before `NULL`. -/
  rxPackets : List Nat
  /-- `get_free_packet()`: a buffer, and what is in it, or `NULL`. -/
  freePacket : Option (Nat × Packet)

/-- `tx_paquet.data` once zeroed and written with a text and its zero. -/
def textData (data : Mem UInt8) (text : List Char) : Mem UInt8 :=
  (data.fill 0 0 paquetMaxDatasize).copy 0 (fun i => UInt8.ofNat (text.getD i '\x00').toNat) (text.length + 1)

/-- `s` with the text of a report, and its length, in `tx_paquet`. -/
def NodeState.withText (s : NodeState) (text : List Char) : NodeState :=
  { s with
    txPaquet := { s.txPaquet with data := textData s.txPaquet.data text, datalen := UInt8.ofNat text.length } }

/-- `tx_paquet` with its addresses. -/
def addressed (txPaquet : Paquet) : Paquet :=
  { txPaquet with
    dpan := PAN_ID
    span := PAN_ID
    smac := #v[NODE_ID, 0, 0, 0, 0, 0, 0, 0]
    dmac := #v[0x01, 0, 0, 0, 0, 0, 0, 0] }

/-- Addresses, frame and `tx_packet`, with the buffer `pk` at the handle `p`. -/
def sendReport (s : NodeState) (p : Nat) (pk : Packet) : Node NodeState := do
  let txPaquet := addressed s.txPaquet
  let (ret, txPaquet, pk) := val (paquet2packet txPaquet pk)
  if ret ≠ 0 then
    tell [.txPacket p pk]
    return { s with txPaquet, cntrMsgSent := s.cntrMsgSent + 1 }
  else
    return { s with txPaquet }

/-- Is it time for the reset? -/
def Overdue (s : NodeState) : Prop := s.mainLoopCount * SLEEP_DELAY > 10 * 60 * 60

instance (s : NodeState) : Decidable (Overdue s) := inferInstanceAs (Decidable (_ > _))

/-- The label `the_end`. -/
def theEnd (s : NodeState) : Node (Option NodeState) := do
  tell [.digitalWrite true, .digitalWrite false]
  let s := { s with mainLoopCount := s.mainLoopCount + 1 }
  tell [.hibernate SLEEP_DELAY.toNat true]
  return some s

/-- The send, and what follows when there is a buffer. -/
def sendAndCheck (s : NodeState) : Option (Nat × Packet) → Node (Option NodeState)
  | none => theEnd s
  | some (p, pk) => do
    let s ← sendReport s p pk
    tell [.radOff]
    if Overdue s then do
      tell [.resetWatchdog]
      return none
    else theEnd s

/-- One cycle of the main loop. -/
def mainLoop (s : NodeState) (i : CycleInput) : Node (Option NodeState) := do
  tell [.radOn]
  report s.bme280Presence s.config s.mainLoopCount i.readings
  let s := s.withText (reportText s.bme280Presence s.config s.mainLoopCount i.readings)
  tell [.checkMaca]
  tell (i.rxPackets.map .freePacket)
  sendAndCheck s i.freePacket

/-- The globals when the loop is entered. -/
def NodeState.boot (config : ConfigT) (bme280Presence : Bool) : NodeState :=
  { config, bme280Presence, mainLoopCount := 0, cntrMsgSent := 0, txPaquet := .zero }

/-- The state at the start of cycle `n`, if there is one. -/
def nodeAt (s : NodeState) (env : Nat → CycleInput) : Nat → Option NodeState
  | 0 => some s
  | n + 1 => (nodeAt s env n).bind fun s => val (mainLoop s (env n))

/-! ## One cycle -/

theorem sendReport_count (s : NodeState) (p : Nat) (pk : Packet) :
    (val (sendReport s p pk)).mainLoopCount = s.mainLoopCount := by
  unfold sendReport
  simp only [val_ite]
  split <;> rfl

theorem overdue_withText (s : NodeState) (text : List Char) : Overdue (s.withText text) ↔ Overdue s := Iff.rfl

theorem sendAndCheck_none (s : NodeState) :
    (val (sendAndCheck s none)).map (·.mainLoopCount) = some (s.mainLoopCount + 1) := rfl

theorem sendAndCheck_some (s : NodeState) (b : Nat × Packet) :
    (val (sendAndCheck s (some b))).map (·.mainLoopCount) =
      if Overdue s then none else some (s.mainLoopCount + 1) := by
  have hcount := sendReport_count s b.1 b.2
  have hdue : Overdue (val (sendReport s b.1 b.2)) ↔ Overdue s := by rw [Overdue, Overdue, hcount]
  simp only [sendAndCheck, val_bind, val_ite]
  by_cases h : Overdue s
  · rw [if_pos (hdue.mpr h), if_pos h]
    rfl
  · rw [if_neg fun hh => h (hdue.mp hh), if_neg h]
    show some ((val (sendReport s b.1 b.2)).mainLoopCount + 1) = _
    rw [hcount]

/-- A cycle with a buffer resets when it is time; any other counts on. -/
theorem mainLoop_count (s : NodeState) (i : CycleInput) :
    (val (mainLoop s i)).map (·.mainLoopCount) =
      if i.freePacket ≠ none ∧ Overdue s then none else some (s.mainLoopCount + 1) := by
  simp only [mainLoop, val_bind]
  cases i.freePacket with
  | none =>
    rw [if_neg (by simp)]
    exact sendAndCheck_none _
  | some b =>
    rw [sendAndCheck_some]
    simp only [overdue_withText, ne_eq, reduceCtorEq, not_false_eq_true, true_and]
    rfl

theorem mainLoop_none_iff (s : NodeState) (i : CycleInput) :
    val (mainLoop s i) = none ↔ i.freePacket ≠ none ∧ Overdue s := by
  have hcount := mainLoop_count s i
  split at hcount
  · next h => exact iff_of_true (Option.map_eq_none_iff.mp hcount) h
  · next h =>
    refine iff_of_false (fun hn => ?_) h
    rw [hn] at hcount
    exact absurd hcount (Option.some_ne_none _).symm

/-! ## What a cycle does -/

/-- The events of a report's sections. -/
def NodeEvent.isReport : NodeEvent → Bool
  | .ds1820Start | .ds1820Stop | .i2cEnable | .i2cDisable | .sprintf _ => true
  | _ => false

theorem report_events (bme280Presence : Bool) (config : ConfigT) (mainLoopCount : UInt32) (r : Readings) :
    (log (report bme280Presence config mainLoopCount r)).all NodeEvent.isReport = true := by
  have hds : (log (ds1820Report bme280Presence config r)).all NodeEvent.isReport = true := by
    unfold ds1820Report
    split
    · cases r.ds1820 with
      | none => rfl
      | some reading =>
        simp only [ds1820Text, log_bind, log_ite, List.all_append]
        split <;> rfl
    · rfl
  have hstart : (if UsesDs1820 bme280Presence config then [NodeEvent.ds1820Start] else []).all NodeEvent.isReport =
      true := by split <;> rfl
  have hbattery : (log (batteryReport config mainLoopCount r)).all NodeEvent.isReport = true := by
    unfold batteryReport; split <;> rfl
  have hbme : (log (bme280Report bme280Presence r)).all NodeEvent.isReport = true := by
    unfold bme280Report; split <;> rfl
  have hlumi : (log (lumiReport config r)).all NodeEvent.isReport = true := by unfold lumiReport; split <;> rfl
  have hpower : (log (powerReport config r)).all NodeEvent.isReport = true := by unfold powerReport; split <;> rfl
  have herror (e : Nat) : (log (errorReport e)).all NodeEvent.isReport = true := by unfold errorReport; split <;> rfl
  simp only [report, log_bind, log_tell, List.all_append, hds, hstart, hbattery, hbme, hlumi, hpower, herror,
    Bool.and_self]

/-- Does a log hold the reset? -/
def Resets (l : List NodeEvent) : Prop := NodeEvent.resetWatchdog ∈ l

theorem resets_append (l l' : List NodeEvent) : Resets (l ++ l') ↔ Resets l ∨ Resets l' := List.mem_append

theorem not_resets_of_isReport {l : List NodeEvent} (h : l.all NodeEvent.isReport = true) : ¬ Resets l := fun hr =>
  Bool.noConfusion (List.all_eq_true.mp h _ hr)

theorem reset_iff (s : NodeState) (i : CycleInput) :
    Resets (log (mainLoop s i)) ↔ i.freePacket ≠ none ∧ Overdue s := by
  have hend (s : NodeState) : ¬ Resets (log (theEnd s)) := by simp [Resets, theEnd]
  have hsend (s : NodeState) (p : Nat) (pk : Packet) : ¬ Resets (log (sendReport s p pk)) := by
    unfold sendReport
    simp only [log_ite]
    split <;> simp [Resets]
  have hreport := not_resets_of_isReport (report_events s.bme280Presence s.config s.mainLoopCount i.readings)
  have htell (e : NodeEvent) (he : e ≠ .resetWatchdog) : ¬ Resets [e] := fun h => he (List.mem_singleton.mp h).symm
  have hrx : ¬ Resets (i.rxPackets.map .freePacket) := by simp [Resets]
  simp only [mainLoop, log_bind, log_tell, resets_append, hreport, hrx, htell .radOn (by simp),
    htell .checkMaca (by simp), false_or]
  cases i.freePacket with
  | none => exact iff_of_false (hend _) (by simp)
  | some b =>
    have hdue (text : List Char) : Overdue (val (sendReport (s.withText text) b.1 b.2)) ↔ Overdue s := by
      rw [Overdue, sendReport_count, Overdue]
      rfl
    simp only [sendAndCheck, log_bind, log_tell, log_ite, resets_append, hsend, htell .radOff (by simp), false_or, hdue]
    split
    · next h => exact iff_of_true (by simp [Resets]) ⟨Option.some_ne_none b, h⟩
    · next h => exact iff_of_false (hend _) fun hh => h hh.2

/-! ## All runs -/

variable (config : ConfigT) (bme280Presence : Bool) (env : Nat → CycleInput)

/-- The reset comes in the first overdue cycle, and no cycle starts later. -/
structure ResetOnTime : Prop where
  first : ∀ n s, nodeAt (.boot config bme280Presence) env n = some s → Overdue s →
    (∀ m < n, ∀ t, nodeAt (.boot config bme280Presence) env m = some t → ¬ Overdue t) → Resets (log (mainLoop s (env n)))
  bounded : ∀ n s, nodeAt (.boot config bme280Presence) env n = some s → s.mainLoopCount.toNat ≤ 601

theorem overdue_iff {s : NodeState} (h : s.mainLoopCount.toNat ≤ 602) : Overdue s ↔ 600 < s.mainLoopCount.toNat := by
  have hmul : (s.mainLoopCount * SLEEP_DELAY).toNat = s.mainLoopCount.toNat * 60 := by
    rw [UInt32.toNat_mul]
    exact Nat.mod_eq_of_lt (show s.mainLoopCount.toNat * 60 < 2 ^ 32 by omega)
  rw [Overdue, gt_iff_lt, UInt32.lt_iff_toNat_lt, hmul, show (10 * 60 * 60 : UInt32).toNat = 36000 from rfl]
  omega

/-- The cycles up to the first overdue one count up from zero. -/
theorem nodeAt_count (n : Nat) (hn : n ≤ 601) :
    ∃ s, nodeAt (.boot config bme280Presence) env n = some s ∧ s.mainLoopCount.toNat = n := by
  induction n with
  | zero => exact ⟨_, rfl, rfl⟩
  | succ n ih =>
    obtain ⟨s, hs, hcount⟩ := ih (by omega)
    have hnot : ¬ Overdue s := by
      rw [overdue_iff (by omega)]
      omega
    have hstep := mainLoop_count s (env n)
    rw [if_neg fun h => hnot h.2, Option.map_eq_some_iff] at hstep
    obtain ⟨s', hs', hcount'⟩ := hstep
    refine ⟨s', ?_, ?_⟩
    · rw [nodeAt, hs]
      exact hs'
    · rw [hcount', UInt32.toNat_add, hcount]
      simp
      omega

theorem nodeAt_none {n m : Nat} (h : nodeAt (.boot config bme280Presence) env n = none) (hm : n ≤ m) :
    nodeAt (.boot config bme280Presence) env m = none := by
  induction m, hm using Nat.le_induction with
  | base => exact h
  | succ m _ ih => rw [nodeAt, ih]; rfl

/-- With a buffer in cycle 601 there is no later cycle. -/
theorem resetOnTime_of_buffer (h : (env 601).freePacket ≠ none) : ResetOnTime config bme280Presence env := by
  obtain ⟨s₆₀₁, hs₆₀₁, hcount₆₀₁⟩ := nodeAt_count config bme280Presence env 601 (Nat.le_refl _)
  have hend : nodeAt (.boot config bme280Presence) env 602 = none := by
    rw [nodeAt, hs₆₀₁]
    exact (mainLoop_none_iff s₆₀₁ (env 601)).mpr ⟨h, (overdue_iff (by omega)).mpr (by omega)⟩
  have hbefore {n : Nat} {s : NodeState} (hs : nodeAt (.boot config bme280Presence) env n = some s) :
      n ≤ 601 ∧ s.mainLoopCount.toNat = n := by
    have hn : n ≤ 601 := by
      by_contra hlate
      rw [nodeAt_none config bme280Presence env hend (by omega)] at hs
      cases hs
    obtain ⟨t, ht, hcount⟩ := nodeAt_count config bme280Presence env n hn
    rw [hs, Option.some.injEq] at ht
    exact ⟨hn, by rw [ht, hcount]⟩
  constructor
  · intro n s hs hdue _
    obtain ⟨hn, hcount⟩ := hbefore hs
    have hn601 : n = 601 := by
      rw [overdue_iff (by omega)] at hdue
      omega
    rw [reset_iff, hn601]
    exact ⟨h, hdue⟩
  · intro n s hs
    obtain ⟨hn, hcount⟩ := hbefore hs
    omega

/-- Without one, cycle 602 starts. -/
theorem not_resetOnTime (h : (env 601).freePacket = none) : ¬ ResetOnTime config bme280Presence env := by
  intro hreset
  obtain ⟨s, hs, hcount⟩ := nodeAt_count config bme280Presence env 601 (Nat.le_refl _)
  have hstep := mainLoop_count s (env 601)
  rw [if_neg fun hh => hh.1 h, Option.map_eq_some_iff] at hstep
  obtain ⟨s', hs', hcount'⟩ := hstep
  have hlate := hreset.bounded 602 s' (by rw [nodeAt, hs]; exact hs')
  rw [hcount', UInt32.toNat_add, hcount] at hlate
  simp at hlate

/-- **When the reset comes on time**: there is a buffer in cycle 601. -/
theorem resetOnTime_iff : ResetOnTime config bme280Presence env ↔ (env 601).freePacket ≠ none :=
  ⟨fun hreset h => not_resetOnTime config bme280Presence env h hreset,
    resetOnTime_of_buffer config bme280Presence env⟩

/-- A node that is out of radio buffers is never reset on time. -/
theorem mute_not_reset :
    ¬ ResetOnTime fullConfig true fun _ => { readings := sampleReadings, rxPackets := [], freePacket := none } :=
  not_resetOnTime fullConfig true _ rfl

end OflMetrics
