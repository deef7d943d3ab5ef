/-
The temperature of the BME280, from the reading in hundredths of a degree to
the number the database gets.

The sign is on the whole degrees alone, which are none between -0.99 and
-0.01: there the text lacks it. Everywhere else the text denotes the reading,
and so does the value posted (`temperature_iff`).
-/
import Mathlib.Tactic.Linarith
import Mathlib.Tactic.Ring
import OflMetrics.Bridge.Identity
import OflMetrics.Bridge.Metrics
import OflMetrics.Embed.Decimal

namespace OflMetrics

open Embed Embed.KeyValue Embed.Printf

/-! ## The text of the reading -/

/-- What stands between `TEMP:` and the next `;` of a report. -/
def tempField (text : List Char) : Option (List Char) := ((items text).find? (·.1 = "TEMP".toList)).map (·.2)

/-- `sprintf("%d.%02d", temp/100, temp_centi)`. -/
def tempText (temp : Int16) : List Char := decInt (temp.toInt.tdiv 100) ++ '.' :: zdecInt 2 (tempCenti temp)

/-- A text denotes the temperature `temp` hundredths of a degree. -/
def Denotes (s : List Char) (temp : Int16) : Prop := Decimal.value s = some ((temp.toInt : ℚ) / 100)

variable (config : ConfigT) (mainLoopCount : UInt32) (r : Readings)

theorem bme280Items_temp : bme280Items true r = [("TEMP".toList, tempText r.temperature),
    ("PRESS".toList, zdec 4 r.pressure.toNat),
    ("HUMI".toList, '+' :: dec (r.humidity.toNat / 100) ++ '.' :: zdec 2 (r.humidity.toNat % 100))] := rfl

/-- The DS1820 is silent beside a BME280. -/
theorem ds1820Items_bme280 : ds1820Items true config r = [] := if_neg fun h => Bool.noConfusion h.1

/-- The one temperature of the report. -/
theorem filter_reportItems : (reportItems true config mainLoopCount r).filter (·.1 = "TEMP".toList) =
    [("TEMP".toList, tempText r.temperature)] := by
  rw [reportItems, ds1820Items_bme280, bme280Items_temp, List.append_nil]
  simp only [List.filter_append]
  rw [filter_other (batteryItems_ok config mainLoopCount r) (by decide), filter_other (lumiItems_ok config r) (by decide),
    filter_other (powerItems_ok config r) (by decide), filter_other (errorItems_ok _) (by decide)]
  rfl

theorem tempField_report : tempField (reportText true config mainLoopCount r) = some (tempText r.temperature) := by
  rw [tempField, items_reportText, ← List.head?_filter, filter_reportItems]
  rfl

/-- The one metric `temp` of a report. -/
theorem insertPacket_temp {influxdbUrl : List Char} (hurl : influxdbUrl ≠ []) (src dst : List Char) :
    ∃ metrics, insertPacket influxdbUrl ⟨src, dst, reportText true config mainLoopCount r⟩ = some metrics ∧
      metrics.filter (·.type = "temp".toList) = [⟨src, "temp".toList, tempText r.temperature⟩] := by
  refine ⟨_, insertPacket_report true config mainLoopCount r hurl src dst, ?_⟩
  have hkeys : ∀ k ∈ nodeKeys, (decide (toLower k = "temp".toList) && decide (k ∈ metricTypes)) = decide (k = "TEMP".toList) := by
    decide
  rw [List.filter_map, List.filter_filter]
  have htemp : (reportItems true config mainLoopCount r).filter
      (fun it => decide (toLower it.1 = "temp".toList) && decide (it.1 ∈ metricTypes)) =
        [("TEMP".toList, tempText r.temperature)] := by
    rw [← filter_reportItems config mainLoopCount r]
    exact List.filter_congr fun it hit => hkeys it.1 (reportItems_ok true config mainLoopCount r it hit).key
  exact congrArg (List.map (metricOf src)) htemp

/-! ## Its number -/

/-- Whole degrees and hundredths make up the reading. -/
theorem hundredths (n : Nat) : ((n / 100 : Nat) : ℚ) + ((n % 100 : Nat) : ℚ) / 100 = (n : ℚ) / 100 := by
  have hsplit : ((100 * (n / 100) + n % 100 : Nat) : ℚ) = n := congrArg Nat.cast (Nat.div_add_mod n 100)
  push_cast at hsplit
  rw [← hsplit]
  ring

/-- The text of a reading that is not negative. -/
theorem tempText_nonneg {temp : Int16} {n : Nat} (h : temp.toInt = n) :
    tempText temp = dec (n / 100) ++ '.' :: zdec 2 (n % 100) := by
  have hcenti : tempCenti temp = ((n % 100 : Nat) : Int) := by
    rw [tempCenti, h, if_pos (Int.natCast_nonneg n)]
    rfl
  have hwhole : temp.toInt.tdiv 100 = ((n / 100 : Nat) : Int) := by
    rw [h]
    rfl
  rw [tempText, hcenti, hwhole, decInt_natCast, zdecInt_natCast]

/-- The text of a negative reading: its sign is that of the whole degrees. -/
theorem tempText_neg {temp : Int16} {n : Nat} (hn : 0 < n) (h : temp.toInt = -n) :
    tempText temp = (if n < 100 then [] else ['-']) ++ (dec (n / 100) ++ '.' :: zdec 2 (n % 100)) := by
  have hcenti : tempCenti temp = ((n % 100 : Nat) : Int) := by
    rw [tempCenti, h, if_neg (by omega), Int.neg_neg]
    rfl
  have hwhole : temp.toInt.tdiv 100 = -((n / 100 : Nat) : Int) := by
    rw [h, Int.neg_tdiv]
    rfl
  have hsign : decInt (-((n / 100 : Nat) : Int)) = (if n < 100 then [] else ['-']) ++ dec (n / 100) := by
    rw [decInt, Int.natAbs_neg, Int.natAbs_natCast]
    by_cases hsmall : n < 100
    · rw [if_neg (by omega), if_pos hsmall, List.nil_append]
    · rw [if_pos (by omega), if_neg hsmall, List.singleton_append]
  rw [tempText, hcenti, hwhole, hsign, zdecInt_natCast, List.append_assoc]

theorem denotes_tempText (temp : Int16) : Denotes (tempText temp) temp ↔ 0 ≤ temp.toInt ∨ temp.toInt ≤ -100 := by
  obtain ⟨n, hn⟩ := Int.eq_nat_or_neg temp.toInt
  have hmod : n % 100 < 100 := Nat.mod_lt _ (by decide)
  by_cases hnonneg : 0 ≤ temp.toInt
  · have htemp : temp.toInt = n := by omega
    refine ⟨fun _ => .inl hnonneg, fun _ => ?_⟩
    rw [Denotes, tempText_nonneg htemp, Decimal.value_dec_zdec _ hmod, hundredths, htemp, Int.cast_natCast]
  · have htemp : temp.toInt = -n := by omega
    have hpos : 0 < n := by omega
    have hnumber : ((temp.toInt : ℚ) / 100) = -((n : ℚ) / 100) := by
      rw [htemp, Int.cast_neg, Int.cast_natCast, neg_div]
    rw [Denotes, tempText_neg hpos htemp, hnumber]
    by_cases hsmall : n < 100
    · -- The text denotes the opposite number.
      rw [if_pos hsmall, List.nil_append, Decimal.value_dec_zdec _ hmod, hundredths, Option.some_inj]
      have hq : (0 : ℚ) < (n : ℚ) / 100 := div_pos (Nat.cast_pos.mpr hpos) (by norm_num)
      exact ⟨fun h => by linarith, fun h => by omega⟩
    · rw [if_neg hsmall, List.singleton_append, Decimal.value_neg, Decimal.unsignedValue_dec_zdec _ hmod, hundredths]
      exact ⟨fun _ => .inr (by omega), fun _ => rfl⟩

/-! ## The value posted -/

/-- The characters of the text: no sign but the minus. -/
theorem toNat_tempText {temp : Int16} {c : Char} (h : c ∈ tempText temp) : 45 ≤ c.toNat ∧ c.toNat ≤ 70 := by
  rw [tempText, List.mem_append, List.mem_cons] at h
  rcases h with h | rfl | h
  · exact isNumeral_toNat (isNumeral_decInt h)
  · decide
  · exact isNumeral_toNat (isNumeral_zdecInt h)

/-- The value is posted as it is. -/
theorem valueField_temp (mac : List UInt8) (temp : Int16) :
    latin1 (valueField (influxSendmetric ⟨hexText mac, "temp".toList, tempText temp⟩)) = tempText temp := by
  have hplus : (tempText temp).head? ≠ some '+' := fun h =>
    absurd (toNat_tempText (List.mem_of_mem_head? h)).1 (by decide)
  have hpercent : '%' ∉ "temp".toList := by decide
  have hline : influxSendmetric ⟨hexText mac, "temp".toList, tempText temp⟩ =
      toLatin1 (("sensors,id=RDB_".toList ++ hexText mac ++ ",type=temp".toList) ++ ' ' :: ("value=".toList ++ tempText temp)) := by
    rw [influxSendmetric_eq (not_mem_hexText (by decide) mac) hpercent, if_neg hplus]
    simp
  have hbefore : ∀ c ∈ "sensors,id=RDB_".toList ++ hexText mac ++ ",type=temp".toList, c.toNat < 256 ∧ c ≠ ' ' := by
    intro c hc
    simp only [List.mem_append] at hc
    rcases hc with (hc | hc) | hc
    · exact latin1_but (s := "sensors,id=RDB_".toList) rfl c hc
    · exact isNumeral_but (isNumeral_hexText hc) (by decide)
    · exact latin1_but (s := ",type=temp".toList) rfl c hc
  have hvalue : toLatin1 (' ' :: ("value=".toList ++ tempText temp)) = toLatin1 " value=".toList ++ toLatin1 (tempText temp) :=
    toLatin1_append " value=".toList (tempText temp)
  have hlength : (toLatin1 " value=".toList).length = 7 := rfl
  have hspace : UInt8.ofNat ' '.toNat = 0x20 := rfl
  have hdrop := dropWhile_toLatin1 (by decide) hbefore ("value=".toList ++ tempText temp)
  rw [hspace, hvalue] at hdrop
  rw [valueField, hline, hdrop, List.drop_left' hlength]
  exact latin1_toLatin1 fun c hc => lt_of_le_of_lt (toNat_tempText hc).2 (by decide)

/-- **When the database gets the temperature**: the report of a node with a
BME280 has one text for it, the bridge posts that text under `temp`, and it
denotes the reading, on the air and in the database, exactly if this is not one
of -0.99 to -0.01 degrees. -/
theorem temperature_iff {influxdbUrl : List Char} (hurl : influxdbUrl ≠ []) (mac : List UInt8) (dst : List Char) :
    ∃ v metrics, tempField (reportText true config mainLoopCount r) = some v ∧
      insertPacket influxdbUrl ⟨hexText mac, dst, reportText true config mainLoopCount r⟩ = some metrics ∧
      metrics.filter (·.type = "temp".toList) = [⟨hexText mac, "temp".toList, v⟩] ∧
      (Denotes v r.temperature ∧
          Denotes (latin1 (valueField (influxSendmetric ⟨hexText mac, "temp".toList, v⟩))) r.temperature ↔
        0 ≤ r.temperature.toInt ∨ r.temperature.toInt ≤ -100) := by
  obtain ⟨metrics, hinsert, htemp⟩ := insertPacket_temp config mainLoopCount r hurl (hexText mac) dst
  refine ⟨tempText r.temperature, metrics, tempField_report config mainLoopCount r, hinsert, htemp, ?_⟩
  rw [valueField_temp, and_self_iff]
  exact denotes_tempText r.temperature

theorem temperature_iff_sample :
    ∃ v metrics, tempField (reportText true fullConfig 1 sampleReadings) = some v ∧
      insertPacket "http://db".toList ⟨hexText [0, 0, 0, 0], [], reportText true fullConfig 1 sampleReadings⟩ = some metrics ∧
      metrics.filter (·.type = "temp".toList) = [⟨hexText [0, 0, 0, 0], "temp".toList, v⟩] ∧
      (Denotes v sampleReadings.temperature ∧
          Denotes (latin1 (valueField (influxSendmetric ⟨hexText [0, 0, 0, 0], "temp".toList, v⟩))) sampleReadings.temperature ↔
        0 ≤ sampleReadings.temperature.toInt ∨ sampleReadings.temperature.toInt ≤ -100) :=
  temperature_iff fullConfig 1 sampleReadings (by decide) [0, 0, 0, 0] []

/-- Half a degree of frost is reported as half a degree. -/
theorem frost_lost :
    ¬ ∀ (config : ConfigT) (mainLoopCount : UInt32) (r : Readings),
      ∃ v, tempField (reportText true config mainLoopCount r) = some v ∧ Denotes v r.temperature := by
  intro hall
  obtain ⟨v, hv, hdenotes⟩ := hall fullConfig 1 { sampleReadings with temperature := -50 }
  rw [tempField_report, Option.some_inj] at hv
  rw [← hv, denotes_tempText] at hdenotes
  exact absurd hdenotes (by decide)

end OflMetrics
