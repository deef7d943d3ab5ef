/-
How long a report is.

* `length_reportText`: the sum of the fixed texts and of the widths of the
  numbers in it.
* `report_fits_iff`: a report that is not a status cycle's always fits its
  array and its frame; a status cycle's does when its numbers and its sensor
  texts take 49 characters at most.
-/
import OflMetrics.Node.ReportItems

namespace OflMetrics

open Embed Embed.Printf Embed.KeyValue

/-! ## The length of each section -/

/-- The width of the numbers in the status section. -/
def statusWidth (mainLoopCount : UInt32) (r : Readings) : Nat :=
  digits r.batteryLevel.toNat + digits r.awakeSec.toNat + digits mainLoopCount.toNat

/-- The width of what the DS1820 adds: a temperature or an error. -/
def ds1820Width : Option (UInt8 × UInt8 × UInt8) → Nat
  | some (_, cel, frac) => if cel = 85 then 11 else 8 + digits cel.toNat + max 2 (digits frac.toNat)
  | none => 11

/-- The width of what the BME280 adds. -/
def bme280Width (r : Readings) : Nat :=
  26 + (if r.temperature.toInt ≤ -100 then 1 else 0) + digits (r.temperature.toInt.natAbs / 100) +
    max 4 (digits r.pressure.toNat) + digits (r.humidity.toNat / 100)

/-- The width of all sensor texts. -/
def sensorWidth (bme280Presence : Bool) (config : ConfigT) (r : Readings) : Nat :=
  (if bme280Presence then bme280Width r else 0) +
    (if UsesDs1820 bme280Presence config then ds1820Width r.ds1820 else 0) +
    (if byte0 config.capa &&& CAPA_LIGHT ≠ 0 then 12 else 0) +
    (if byte0 config.capa &&& CAPA_POWER ≠ 0 then 13 else 0)

variable (bme280Presence : Bool) (config : ConfigT) (mainLoopCount : UInt32) (r : Readings)

theorem length_zdec_of_lt {w n : Nat} (hw : 0 < w) (h : n < 10 ^ w) : (zdec w n).length = w := by
  rw [length_zdec]
  exact Nat.max_eq_left ((digits_le_iff hw).mpr h)

theorem length_battery :
    (render (batteryItems config mainLoopCount r)).length =
      if mainLoopCount % 5 = 0 then 51 + statusWidth mainLoopCount r else 0 := by
  have hver : (zdec 4 FW_VER).length = 4 := length_zdec_of_lt (by decide) (by decide)
  unfold batteryItems statusWidth
  split
  · simp [Item.length_render, length_dec, hver]
    omega
  · rfl

theorem length_ds1820 :
    (render (ds1820Items bme280Presence config r)).length +
        (render (errorItems (reportErr bme280Presence config r))).length =
      if UsesDs1820 bme280Presence config then ds1820Width r.ds1820 else 0 := by
  have herr {e : Nat} (h : 0 < e) (he : e < 10 ^ 4) : (render (errorItems e)).length = 11 := by
    rw [errorItems, if_pos h]
    simp [Item.length_render, length_zdec_of_lt (show 0 < 4 by decide) he]
  unfold ds1820Items reportErr
  split
  · cases r.ds1820 with
    | none => simpa [ds1820TextItems, ds1820Err, ds1820Width] using herr (e := 12) (by decide) (by decide)
    | some reading =>
      obtain ⟨sign, cel, frac⟩ := reading
      simp only [ds1820TextItems, ds1820Err, ds1820Width]
      split
      · simpa using herr (e := 11) (by decide) (by decide)
      · simp [Item.length_render, length_dec, length_zdec, errorItems]
        omega
  · rfl

/-- The two digits behind the point. -/
theorem tempCenti_nat (temp : Int16) : ∃ n : Nat, tempCenti temp = n ∧ n < 100 := by
  unfold tempCenti
  split
  · next h =>
    refine ⟨(temp.toInt.tmod 100).toNat, ?_, ?_⟩
    · exact (Int.toNat_of_nonneg (Int.tmod_nonneg _ h)).symm
    · have := Int.tmod_lt_of_pos temp.toInt (show (0 : Int) < 100 by decide)
      omega
  · next h =>
    refine ⟨((-temp.toInt).tmod 100).toNat, ?_, ?_⟩
    · exact (Int.toNat_of_nonneg (Int.tmod_nonneg _ (by omega))).symm
    · have := Int.tmod_lt_of_pos (-temp.toInt) (show (0 : Int) < 100 by decide)
      omega

/-- The degrees: a sign from -100 hundredths down. -/
theorem length_degrees (temp : Int) :
    (decInt (temp.tdiv 100)).length = (if temp ≤ -100 then 1 else 0) + digits (temp.natAbs / 100) := by
  have habs : (temp.tdiv 100).natAbs = temp.natAbs / 100 := Int.natAbs_tdiv _ _
  have hsign : temp.tdiv 100 < 0 ↔ temp ≤ -100 := by
    rcases Int.le_total 0 temp with hpos | hneg
    · have := Int.tdiv_nonneg hpos (show (0 : Int) ≤ 100 by decide)
      omega
    · have hnonneg := Int.tdiv_nonneg (show 0 ≤ -temp by omega) (show (0 : Int) ≤ 100 by decide)
      rw [Int.neg_tdiv] at hnonneg
      omega
  rw [length_decInt, habs]
  simp only [hsign]

theorem length_bme280 :
    (render (bme280Items bme280Presence r)).length = if bme280Presence then bme280Width r else 0 := by
  obtain ⟨n, hn, hlt⟩ := tempCenti_nat r.temperature
  have hcenti : (zdec 2 n).length = 2 := length_zdec_of_lt (by decide) hlt
  have hhumi : (zdec 2 (r.humidity.toNat % 100)).length = 2 := length_zdec_of_lt (by decide) (Nat.mod_lt _ (by decide))
  unfold bme280Items bme280Width
  split
  · simp [Item.length_render, hn, hcenti, hhumi, length_dec, length_zdec, length_degrees]
    omega
  · rfl

theorem length_lumi :
    (render (lumiItems config r)).length = if byte0 config.capa &&& CAPA_LIGHT ≠ 0 then 12 else 0 := by
  have hv : (zdec 5 (getLumi r.lightAdc).2.toNat).length = 5 :=
    length_zdec_of_lt (by decide) (Nat.lt_trans (getLumi r.lightAdc).2.toNat_lt (by decide))
  unfold lumiItems
  split
  · simp [Item.length_render, hv]
  · rfl

theorem length_power :
    (render (powerItems config r)).length = if byte0 config.capa &&& CAPA_POWER ≠ 0 then 13 else 0 := by
  have hv : (zdec 5 (getPower r.powerAdc).2.toNat).length = 5 :=
    length_zdec_of_lt (by decide) (Nat.lt_trans (getPower r.powerAdc).2.toNat_lt (by decide))
  unfold powerItems
  split
  · simp [Item.length_render, hv]
  · rfl

theorem length_reportText :
    (reportText bme280Presence config mainLoopCount r).length =
      (if mainLoopCount % 5 = 0 then 51 + statusWidth mainLoopCount r else 0) +
        sensorWidth bme280Presence config r := by
  have hds := length_ds1820 bme280Presence config r
  rw [reportText_eq_render, reportItems]
  simp only [render_append, List.length_append, length_battery, length_bme280, length_lumi, length_power, sensorWidth]
  omega

/-! ## The bounds -/

theorem digits_le {n k : Nat} (hk : 0 < k) (h : n < 10 ^ k) : digits n ≤ k := (digits_le_iff hk).mpr h

theorem ds1820Width_le (reading : Option (UInt8 × UInt8 × UInt8)) : ds1820Width reading ≤ 14 := by
  cases reading with
  | none =>
    show 11 ≤ 14
    omega
  | some reading =>
    obtain ⟨sign, cel, frac⟩ := reading
    have hcel : digits cel.toNat ≤ 3 := digits_le (by decide) (Nat.lt_trans cel.toNat_lt (by decide))
    have hfrac : digits frac.toNat ≤ 3 := digits_le (by decide) (Nat.lt_trans frac.toNat_lt (by decide))
    simp only [ds1820Width]
    split <;> omega

theorem bme280Width_le : bme280Width r ≤ 38 := by
  have hpres : digits r.pressure.toNat ≤ 5 := digits_le (by decide) (Nat.lt_trans r.pressure.toNat_lt (by decide))
  have hhumi : digits (r.humidity.toNat / 100) ≤ 3 := digits_le (by decide) (by
    have := r.humidity.toNat_lt
    omega)
  have htemp : digits (r.temperature.toInt.natAbs / 100) ≤ 3 := digits_le (by decide) (by
    have hlow := r.temperature.le_toInt
    have hhigh := r.temperature.toInt_lt
    omega)
  unfold bme280Width
  split <;> omega

/-- Without the status section a report is short. -/
theorem sensorWidth_le : sensorWidth bme280Presence config r ≤ 63 := by
  have hbme := bme280Width_le r
  have hds := ds1820Width_le r.ds1820
  unfold sensorWidth
  cases bme280Presence with
  | false =>
    simp only [Bool.false_eq_true, if_false]
    split <;> split <;> split <;> omega
  | true =>
    have hno : ¬ UsesDs1820 true config := fun h => Bool.noConfusion h.1
    simp only [if_true, if_neg hno]
    split <;> split <;> omega

/-- The report of a cycle fits: the array at each `sprintf`, with its zero,
and the frame at the end. -/
structure ReportFits : Prop where
  array : ∀ k, ((reportTexts bme280Presence config mainLoopCount r).take k).flatten.length ≤ 119
  frame : (reportText bme280Presence config mainLoopCount r).length ≤ 100

/-- **When a report fits.** -/
theorem report_fits_iff :
    ReportFits bme280Presence config mainLoopCount r ↔
      (mainLoopCount % 5 = 0 → statusWidth mainLoopCount r + sensorWidth bme280Presence config r ≤ 49) := by
  have hlen := length_reportText bme280Presence config mainLoopCount r
  have hsensor := sensorWidth_le bme280Presence config r
  constructor
  · intro h hstatus
    have hframe := h.frame
    rw [hlen, if_pos hstatus] at hframe
    omega
  · intro h
    have hframe : (reportText bme280Presence config mainLoopCount r).length ≤ 100 := by
      rw [hlen]
      split
      · next hstatus =>
        have := h hstatus
        omega
      · omega
    refine ⟨fun k => ?_, hframe⟩
    have hsplit := congrArg (fun l => l.flatten.length)
      (List.take_append_drop k (reportTexts bme280Presence config mainLoopCount r))
    simp only [List.flatten_append, List.length_append] at hsplit
    rw [reportText] at hframe
    omega

/-- The status cycle of a node with all sensors overruns the array. -/
theorem fullConfig_overruns :
    (reportText true fullConfig 600 sampleReadings).length = 122 ∧ ¬ ReportFits true fullConfig 600 sampleReadings := by
  have hlen : (reportText true fullConfig 600 sampleReadings).length = 122 := by decide +kernel
  refine ⟨hlen, fun h => ?_⟩
  have hframe := h.frame
  omega

end OflMetrics
