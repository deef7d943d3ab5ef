/-
Is a finished measurement read?

When `do_measurement` switches the mode it polls the status until the sensor
is no longer measuring, ten times at most, and then reads the registers. A
budget that is used up ends the loop as a clear status does: the result is 0
in both cases (`doMeasurement_ret`), and what the registers hold is reported
(`reports_bme280`). So stale data is kept out exactly when the mode was set
already or one of the ten polls is clear (`noStaleData_iff`).
-/
import OflMetrics.Bme280.Calibration
import OflMetrics.Node.ReportItems

namespace OflMetrics

open Embed Embed.Traced Embed.KeyValue

/-- The BME280's part of a cycle: the readings `main` gets from the three
functions, in their order. -/
def bme280Readings (rep : Replies) (s : Bme280) (r : Readings) : Driver Readings := do
  let (temperature, s) ← bmx280ReadTemperature rep s
  return { r with temperature, pressure := bmx280ReadPressure s, humidity := bme280ReadHumidity s }

/-- The status bytes that were polled, in order. -/
def polled (l : List I2cEvent) : List UInt8 :=
  l.filterMap fun | .getStatus b => some b | _ => none

/-- The last of them has the measuring bit clear. -/
def LastClear (l : List I2cEvent) : Prop := ∃ b, (polled l).getLast? = some b ∧ b &&& 0x08 = 0

/-- The sensor was in another mode. -/
def Switches (pMode : UInt8) (rep : Replies) : Prop := rep.ctrlMeas &&& 3 ≠ pMode

instance (pMode : UInt8) (rep : Replies) : Decidable (Switches pMode rep) := inferInstanceAs (Decidable (_ ≠ _))

/-- No stale sensor data is reported as a reading: a measurement that
switched the mode succeeds on a clear status only, fails on any other, and the
report of a failed one has no item of the sensor. -/
structure NoStaleData (rep : Replies) (s : Bme280) (config : ConfigT) (mainLoopCount : UInt32) (r : Readings) : Prop where
  clear : Switches BMX280_MODE_FORCED rep → (val (doMeasurement BMX280_MODE_FORCED rep s)).1 = 0 →
    LastClear (log (doMeasurement BMX280_MODE_FORCED rep s))
  failed : Switches BMX280_MODE_FORCED rep → ¬LastClear (log (doMeasurement BMX280_MODE_FORCED rep s)) →
    (val (doMeasurement BMX280_MODE_FORCED rep s)).1 < 0
  unreported : (val (doMeasurement BMX280_MODE_FORCED rep s)).1 < 0 →
    ∀ it ∈ items (reportText true config mainLoopCount (val (bme280Readings rep s r))), it.1 ∉ bme280Keys

/-! ## The polls -/

@[simp] theorem polled_append (l l' : List I2cEvent) : polled (l ++ l') = polled l ++ polled l' :=
  List.filterMap_append

@[simp] theorem polled_cons_getStatus (b : UInt8) (l : List I2cEvent) : polled (.getStatus b :: l) = b :: polled l := rfl

@[simp] theorem polled_cons_writeReg (reg b : UInt8) (l : List I2cEvent) : polled (.writeReg reg b :: l) = polled l := rfl

theorem lastClear_singleton (b : UInt8) : LastClear [.getStatus b] ↔ b &&& 0x08 = 0 := by
  constructor
  · rintro ⟨c, hc, hclear⟩
    obtain rfl : b = c := Option.some.inj hc
    exact hclear
  · exact fun hclear => ⟨b, rfl, hclear⟩

/-- A poll that finds the sensor measuring leaves it to the polls after it. -/
theorem lastClear_cons {b : UInt8} (hb : b &&& 0x08 ≠ 0) (l : List I2cEvent) :
    LastClear (.getStatus b :: l) ↔ LastClear l := by
  unfold LastClear
  rw [polled_cons_getStatus, List.getLast?_cons]
  cases (polled l).getLast? with
  | none =>
    constructor
    · rintro ⟨c, hc, hclear⟩
      obtain rfl : b = c := Option.some.inj hc
      exact absurd hclear hb
    · rintro ⟨c, hc, -⟩
      cases hc
  | some c => exact Iff.rfl

/-- The loop ends on a clear status when one of its polls is clear. -/
theorem lastClear_pollStatus (status : Nat → UInt8) (n count : Nat) :
    LastClear (log (pollStatus status n count)) ↔ ∃ k < n, status (count + k) &&& 0x08 = 0 := by
  induction n generalizing count with
  | zero =>
    constructor
    · rintro ⟨b, hb, -⟩
      cases hb
    · rintro ⟨k, hk, -⟩
      exact absurd hk k.not_lt_zero
  | succ n ih =>
    by_cases hcount : status count &&& 0x08 = 0
    · have hlog : log (pollStatus status (n + 1) count) = [.getStatus (status count)] := by
        simp [pollStatus, hcount]
      rw [hlog, lastClear_singleton]
      exact ⟨fun h => ⟨0, n.succ_pos, h⟩, fun _ => hcount⟩
    · have hlog : log (pollStatus status (n + 1) count) =
          .getStatus (status count) :: log (pollStatus status n (count + 1)) := by
        simp [pollStatus, hcount]
      rw [hlog, lastClear_cons hcount, ih]
      constructor
      · rintro ⟨k, hk, hclear⟩
        exact ⟨k + 1, Nat.succ_lt_succ hk, by rwa [← Nat.add_assoc, Nat.add_right_comm]⟩
      · rintro ⟨k, hk, hclear⟩
        cases k with
        | zero => exact absurd hclear hcount
        | succ k => exact ⟨k, Nat.lt_of_succ_lt_succ hk, by rwa [Nat.add_right_comm, Nat.add_assoc]⟩

/-! ## The measurement -/

variable (pMode : UInt8) (rep : Replies) (s : Bme280)

/-- The bus always delivers, so no measurement fails. -/
theorem doMeasurement_ret : (val (doMeasurement pMode rep s)).1 = 0 := by
  simp [doMeasurement, readU8Reg]

theorem log_doMeasurement : log (doMeasurement pMode rep s) = log (setMode pMode rep) := by
  simp [doMeasurement]

variable {pMode rep}

theorem lastClear_doMeasurement (h : Switches pMode rep) :
    LastClear (log (doMeasurement pMode rep s)) ↔ ∃ k < 10, rep.status k &&& 0x08 = 0 := by
  have hlog : log (setMode pMode rep) =
      .writeReg 0xF4 ((rep.ctrlMeas &&& ~~~3) ||| pMode) :: log (pollStatus rep.status 10 0) := by
    unfold setMode
    exact congrArg log (if_pos h)
  have hpolls := lastClear_pollStatus rep.status 10 0
  simp only [Nat.zero_add] at hpolls
  rw [log_doMeasurement, hlog, ← hpolls]
  exact Iff.rfl

/-! ## The report -/

/-- A node with the sensor reports its three items, whatever was read. -/
theorem reports_bme280 (config : ConfigT) (mainLoopCount : UInt32) (r : Readings) {k : List Char} (hk : k ∈ bme280Keys) :
    ∃ v, (k, v) ∈ items (reportText true config mainLoopCount r) := by
  have hitem : ∃ v, (k, v) ∈ bme280Items true r := by
    simp only [bme280Keys, List.mem_cons, List.not_mem_nil, or_false] at hk
    rcases hk with rfl | rfl | rfl
    · exact ⟨_, List.mem_cons_self⟩
    · exact ⟨_, List.mem_cons_of_mem _ List.mem_cons_self⟩
    · exact ⟨_, List.mem_cons_of_mem _ (List.mem_cons_of_mem _ List.mem_cons_self)⟩
  obtain ⟨v, hv⟩ := hitem
  refine ⟨v, ?_⟩
  rw [items_reportText, reportItems]
  simp only [List.mem_append]
  exact .inl (.inl (.inl (.inr hv)))

/-- What goes wrong: with the sensor measuring at all ten polls the result is
0, and the report has the three items of what the registers hold. -/
theorem stale_items (h : Switches BMX280_MODE_FORCED rep) (hbusy : ∀ k < 10, rep.status k &&& 0x08 ≠ 0)
    (config : ConfigT) (mainLoopCount : UInt32) (r : Readings) :
    (val (doMeasurement BMX280_MODE_FORCED rep s)).1 = 0 ∧ ¬LastClear (log (doMeasurement BMX280_MODE_FORCED rep s)) ∧
      ∀ k ∈ bme280Keys, ∃ v, (k, v) ∈ items (reportText true config mainLoopCount (val (bme280Readings rep s r))) := by
  refine ⟨doMeasurement_ret _ _ _, ?_, fun k hk => reports_bme280 _ _ _ hk⟩
  rw [lastClear_doMeasurement s h]
  rintro ⟨k, hk, hclear⟩
  exact hbusy k hk hclear

/-- **When no stale data is reported**: when the mode was set already, or one
of ten polls finds the measuring bit clear. -/
theorem noStaleData_iff (rep : Replies) (s : Bme280) (config : ConfigT) (mainLoopCount : UInt32) (r : Readings) :
    NoStaleData rep s config mainLoopCount r ↔
      rep.ctrlMeas &&& 3 = BMX280_MODE_FORCED ∨ ∃ k < 10, rep.status k &&& 0x08 = 0 := by
  have hret := doMeasurement_ret BMX280_MODE_FORCED rep s
  constructor
  · intro h
    by_cases hset : rep.ctrlMeas &&& 3 = BMX280_MODE_FORCED
    · exact .inl hset
    · exact .inr ((lastClear_doMeasurement s hset).mp (h.clear hset hret))
  · intro h
    have hclear (hset : Switches BMX280_MODE_FORCED rep) : LastClear (log (doMeasurement BMX280_MODE_FORCED rep s)) :=
      (lastClear_doMeasurement s hset).mpr (h.resolve_left hset)
    exact
      { clear := fun hset _ => hclear hset
        failed := fun hset hlast => absurd (hclear hset) hlast
        unreported := fun hneg => absurd hret hneg.ne }

/-- A sensor that sleeps and then keeps measuring. -/
def busyReplies : Replies where
  ctrlMeas := 0x24
  status := fun _ => 0x08
  data := fun _ => 0x80

theorem stale_reported : ¬NoStaleData busyReplies ⟨fun _ => 0, .zero, 0⟩ fullConfig 1 sampleReadings := by
  intro h
  have hset : Switches BMX280_MODE_FORCED busyReplies := by decide
  have hbusy : (0x08 : UInt8) &&& 0x08 ≠ 0 := by decide
  obtain ⟨hret, hlast, -⟩ := stale_items ⟨fun _ => 0, .zero, 0⟩ hset (fun _ _ => hbusy) fullConfig 1 sampleReadings
  exact hlast (h.clear hset hret)

end OflMetrics
