/-
The node asleep: the radio and the DS1820 whenever `hibernate` is entered,
in every run of `oflnode.c`'s main loop.

`Power` is what the events of a run leave switched on. The DS1820 is always
off (`ds1820_off_asleep`): `ds1820_start` and `ds1820_stop` stand under the
same condition. The radio is off in a cycle that had a buffer for its report;
`goto the_end` passes over `rad_off` (`offAsleep_iff`).
-/
import OflMetrics.Embed.Run
import OflMetrics.Node.Cycle

namespace OflMetrics

open Embed Embed.Traced

/-- What the events of a run leave switched on. -/
structure Power where
  /-- The last radio power action: `rad_on` or `rad_off`. -/
  radio : Option Bool
  ds1820 : Bool
  deriving DecidableEq

def Power.boot : Power := { radio := none, ds1820 := false }

def Power.after (p : Power) : NodeEvent → Power
  | .radOn => { p with radio := some true }
  | .radOff => { p with radio := some false }
  | .ds1820Start => { p with ds1820 := true }
  | .ds1820Stop => { p with ds1820 := false }
  | _ => p

/-- `hibernate` is entered with the power lines as `off` says. -/
def AtSleep (off : Power → Prop) (p : Power) : NodeEvent → Prop
  | .hibernate _ _ => off p
  | _ => True

/-- The DS1820 is off. -/
def SensorOff (p : Power) : Prop := p.ds1820 = false

/-- The DS1820 is off, and `rad_off` was the last radio power action. -/
def AllOff (p : Power) : Prop := p.radio = some false ∧ p.ds1820 = false

/-- What cycle `n` does, if there is one. -/
def cycleLog (s : NodeState) (env : Nat → CycleInput) (n : Nat) : List NodeEvent :=
  match nodeAt s env n with
  | some t => log (mainLoop t (env n))
  | none => []

/-- What the first `n` cycles do. -/
def runLog (s : NodeState) (env : Nat → CycleInput) : Nat → List NodeEvent
  | 0 => []
  | n + 1 => runLog s env n ++ cycleLog s env n

/-! ## The parts of a cycle -/

/-- An event that switches nothing and is not the sleep. -/
def NodeEvent.isQuiet : NodeEvent → Bool
  | .radOn | .radOff | .ds1820Start | .ds1820Stop | .hibernate _ _ => false
  | _ => true

theorem run_quiet {l : List NodeEvent} (h : l.all NodeEvent.isQuiet = true) (p : Power) :
    run Power.after p l = p := by
  induction l with
  | nil => rfl
  | cons e l ih =>
    rw [List.all_cons, Bool.and_eq_true] at h
    have he : p.after e = p := by
      cases e with
      | radOn | radOff | ds1820Start | ds1820Stop | hibernate => cases h.1
      | _ => rfl
    rw [run_cons, he]
    exact ih h.2

/-- Only the sleep is under a condition. -/
theorem guarded_awake {l : List NodeEvent} (h : ∀ sec isdeep, .hibernate sec isdeep ∉ l) (off : Power → Prop)
    (p : Power) : Guarded Power.after (AtSleep off) p l := by
  induction l generalizing p with
  | nil => trivial
  | cons e l ih =>
    refine ⟨?_, ih (fun sec isdeep hmem => h sec isdeep (List.mem_cons_of_mem _ hmem)) _⟩
    cases e with
    | hibernate sec isdeep => exact absurd List.mem_cons_self (h sec isdeep)
    | _ => trivial

/-- Events of a kind that the sleep is not of. -/
theorem not_hibernate {kind : NodeEvent → Bool} (hkind : ∀ sec isdeep, kind (.hibernate sec isdeep) = false)
    {l : List NodeEvent} (h : l.all kind = true) (sec : Nat) (isdeep : Bool) : .hibernate sec isdeep ∉ l := by
  intro hmem
  have hall := List.all_eq_true.mp h _ hmem
  rw [hkind] at hall
  cases hall

/-- The sections but the DS1820's switch nothing. -/
theorem sections_quiet (bme280Presence : Bool) (config : ConfigT) (mainLoopCount : UInt32) (r : Readings) (e : Nat) :
    (log (batteryReport config mainLoopCount r)).all NodeEvent.isQuiet = true ∧
      (log (ds1820Text r.ds1820)).all NodeEvent.isQuiet = true ∧
      (log (bme280Report bme280Presence r)).all NodeEvent.isQuiet = true ∧
      (log (lumiReport config r)).all NodeEvent.isQuiet = true ∧
      (log (powerReport config r)).all NodeEvent.isQuiet = true ∧
      (log (errorReport e)).all NodeEvent.isQuiet = true := by
  refine ⟨?_, ?_, ?_, ?_, ?_, ?_⟩
  · unfold batteryReport; split <;> rfl
  · cases r.ds1820 with
    | none => rfl
    | some reading =>
      simp only [ds1820Text, log_ite]
      split <;> rfl
  · unfold bme280Report; split <;> rfl
  · unfold lumiReport; split <;> rfl
  · unfold powerReport; split <;> rfl
  · unfold errorReport; split <;> rfl

/-- The report leaves the DS1820 off, and the radio as it is. -/
theorem run_report (bme280Presence : Bool) (config : ConfigT) (mainLoopCount : UInt32) (r : Readings) {p : Power}
    (hp : p.ds1820 = false) : run Power.after p (log (report bme280Presence config mainLoopCount r)) = p := by
  obtain ⟨hbattery, htext, hbme, hlumi, hpower, -⟩ := sections_quiet bme280Presence config mainLoopCount r 0
  have herror (e : Nat) := (sections_quiet bme280Presence config mainLoopCount r e).2.2.2.2.2
  simp only [report, log_bind, log_tell, run_append, ds1820Report, log_ite]
  by_cases h : UsesDs1820 bme280Presence config
  · simp only [if_pos h, log_pure, List.append_nil, run_append, run_quiet hbattery, run_quiet htext,
      run_quiet hbme, run_quiet hlumi, run_quiet hpower, run_quiet (herror _)]
    obtain ⟨radio, ds1820⟩ := p
    subst hp
    rfl
  · simp only [if_neg h, log_pure, run_nil, run_quiet hbattery, run_quiet hbme, run_quiet hlumi, run_quiet hpower,
      run_quiet (herror _)]

theorem sendReport_quiet (s : NodeState) (p : Nat) (pk : Packet) :
    (log (sendReport s p pk)).all NodeEvent.isQuiet = true := by
  unfold sendReport
  simp only [log_ite]
  split <;> rfl

/-- A cycle up to `get_free_packet`. -/
def cycleHead (s : NodeState) (i : CycleInput) : List NodeEvent :=
  .radOn :: (log (report s.bme280Presence s.config s.mainLoopCount i.readings) ++
    .checkMaca :: i.rxPackets.map .freePacket)

theorem mainLoop_log (s : NodeState) (i : CycleInput) :
    log (mainLoop s i) = cycleHead s i ++ log (sendAndCheck
      (s.withText (reportText s.bme280Presence s.config s.mainLoopCount i.readings)) i.freePacket) := by
  simp [mainLoop, cycleHead]

theorem cycleHead_awake (s : NodeState) (i : CycleInput) (off : Power → Prop) (p : Power) :
    Guarded Power.after (AtSleep off) p (cycleHead s i) := by
  refine guarded_awake (fun sec isdeep hmem => ?_) off p
  have hreport := not_hibernate (fun _ _ => rfl)
    (report_events s.bme280Presence s.config s.mainLoopCount i.readings) sec isdeep
  simp [cycleHead, hreport] at hmem

theorem run_cycleHead (s : NodeState) (i : CycleInput) {p : Power} (hp : p.ds1820 = false) :
    run Power.after p (cycleHead s i) = { radio := some true, ds1820 := false } := by
  have hfree : (i.rxPackets.map NodeEvent.freePacket).all NodeEvent.isQuiet = true := by
    simp [NodeEvent.isQuiet]
  have hon : (p.after .radOn).ds1820 = false := hp
  rw [cycleHead, run_cons, run_append, run_report _ _ _ _ hon, run_cons, run_quiet hfree]
  obtain ⟨radio, ds1820⟩ := p
  subst hp
  rfl

/-! ## Cycles -/

/-- The power lines after `get_free_packet` and what follows on it. -/
def CycleInput.power (i : CycleInput) : Power := { radio := some i.freePacket.isNone, ds1820 := false }

theorem mainLoop_power (s : NodeState) (i : CycleInput) {p : Power} (hp : p.ds1820 = false) :
    run Power.after p (log (mainLoop s i)) = i.power := by
  rw [mainLoop_log, run_append, run_cycleHead s i hp, CycleInput.power]
  cases i.freePacket with
  | none => rfl
  | some b =>
    generalize s.withText _ = s'
    simp only [sendAndCheck, log_bind, log_tell, log_ite, run_append, run_quiet (sendReport_quiet s' b.1 b.2)]
    split <;> rfl

/-- The sleep of a cycle, if it comes to it, is entered with `i.power`. -/
theorem mainLoop_guarded (s : NodeState) (i : CycleInput) (off : Power → Prop) {p : Power} (hp : p.ds1820 = false) :
    Guarded Power.after (AtSleep off) p (log (mainLoop s i)) ↔ (val (mainLoop s i) ≠ none → off i.power) := by
  have hval : val (mainLoop s i) = val (sendAndCheck
      (s.withText (reportText s.bme280Presence s.config s.mainLoopCount i.readings)) i.freePacket) := rfl
  rw [mainLoop_log, Guarded.append, run_cycleHead s i hp, hval, CycleInput.power]
  simp only [cycleHead_awake s i off p, true_and]
  generalize s.withText _ = s'
  cases i.freePacket with
  | none =>
    constructor
    · rintro ⟨-, -, hoff, -⟩ -
      exact hoff
    · intro hoff
      exact ⟨trivial, trivial, hoff (Option.some_ne_none _), trivial⟩
  | some b =>
    have hsend := sendReport_quiet s' b.1 b.2
    simp only [sendAndCheck, val_bind, val_ite, log_bind, log_tell, log_ite, Guarded.append, run_quiet hsend,
      guarded_awake (not_hibernate (fun _ _ => rfl) hsend) off _, true_and]
    split
    · next hdue =>
      exact iff_of_true ⟨⟨trivial, trivial⟩, trivial, trivial⟩ fun hne => absurd rfl hne
    · next hdue =>
      constructor
      · rintro ⟨-, -, -, hoff, -⟩ -
        exact hoff
      · intro hoff
        exact ⟨⟨trivial, trivial⟩, trivial, trivial, hoff (Option.some_ne_none _), trivial⟩

/-! ## All runs -/

variable (config : ConfigT) (bme280Presence : Bool) (env : Nat → CycleInput)

theorem runLog_ds1820 (s : NodeState) (n : Nat) : (run Power.after .boot (runLog s env n)).ds1820 = false := by
  induction n with
  | zero => rfl
  | succ n ih =>
    rw [runLog, run_append, cycleLog]
    cases nodeAt s env n with
    | none => exact ih
    | some t =>
      simp only [mainLoop_power t (env n) ih]
      rfl

/-- A run sleeps as its cycles do. -/
theorem runLog_guarded (s : NodeState) (off : Power → Prop) (n : Nat) :
    Guarded Power.after (AtSleep off) .boot (runLog s env n) ↔
      ∀ m < n, nodeAt s env m ≠ none → nodeAt s env (m + 1) ≠ none → off (env m).power := by
  induction n with
  | zero => simp [runLog, Guarded]
  | succ n ih =>
    have hlast : Guarded Power.after (AtSleep off) (run Power.after .boot (runLog s env n)) (cycleLog s env n) ↔
        (nodeAt s env n ≠ none → nodeAt s env (n + 1) ≠ none → off (env n).power) := by
      rw [cycleLog, nodeAt]
      cases hn : nodeAt s env n with
      | none => simp [Guarded]
      | some t =>
        have hcycle := mainLoop_guarded t (env n) off (runLog_ds1820 env s n)
        simpa using hcycle
    rw [runLog, Guarded.append, ih, hlast, Nat.forall_lt_succ_right]

/-- **The DS1820 is off at every sleep.** -/
theorem ds1820_off_asleep (n : Nat) :
    Guarded Power.after (AtSleep SensorOff) .boot (runLog (.boot config bme280Presence) env n) :=
  (runLog_guarded env _ _ n).mpr fun _ _ _ _ => rfl

theorem allOff_iff (i : CycleInput) : AllOff i.power ↔ i.freePacket ≠ none := by
  cases h : i.freePacket <;> simp [AllOff, CycleInput.power, h]

/-- **When the node sleeps with everything off**: there is a buffer in every
cycle up to the one of the reset. -/
theorem offAsleep_iff :
    (∀ n, Guarded Power.after (AtSleep AllOff) .boot (runLog (.boot config bme280Presence) env n)) ↔
      ∀ n ≤ 601, (env n).freePacket ≠ none := by
  simp only [runLog_guarded, allOff_iff]
  have hreached (m : Nat) (hm : m ≤ 601) : nodeAt (.boot config bme280Presence) env m ≠ none := by
    obtain ⟨s, hs, -⟩ := nodeAt_count config bme280Presence env m hm
    rw [hs]
    exact Option.some_ne_none s
  constructor
  · intro h n hn hnone
    -- A cycle without a buffer never resets, so it is followed by another.
    obtain ⟨s, hs, -⟩ := nodeAt_count config bme280Presence env n hn
    refine h (n + 1) n (Nat.lt_succ_self n) (hreached n hn) (fun hend => ?_) hnone
    rw [nodeAt, hs] at hend
    exact ((mainLoop_none_iff s (env n)).mp hend).1 hnone
  · intro h n m _ _ hnext hnone
    -- Past the reset of cycle 601 there is no cycle.
    have hm : 601 < m := by
      by_contra hle
      exact h m (by omega) hnone
    obtain ⟨s, hs, hcount⟩ := nodeAt_count config bme280Presence env 601 (Nat.le_refl _)
    have hend : nodeAt (.boot config bme280Presence) env 602 = none := by
      rw [nodeAt, hs]
      exact (mainLoop_none_iff s (env 601)).mpr
        ⟨h 601 (Nat.le_refl _), (overdue_iff (by omega)).mpr (by omega)⟩
    exact hnext (nodeAt_none config bme280Presence env hend (by omega))

/-- Out of radio buffers, the node sleeps with the radio on. -/
theorem mute_sleeps_on :
    ¬ Guarded Power.after (AtSleep AllOff) .boot (runLog (.boot fullConfig true)
      (fun _ => { readings := sampleReadings, rxPackets := [], freePacket := none }) 1) := by
  rw [runLog_guarded]
  intro h
  have hlast := h 0 (by decide) (by simp [nodeAt]) (by simp [nodeAt, mainLoop, sendAndCheck, theEnd])
  exact absurd hlast.1 (by decide)

end OflMetrics
