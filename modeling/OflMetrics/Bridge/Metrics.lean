/-
From the node's report to the bridge's metrics.

The node writes eleven keys and the bridge's expression knows seven:
`PRESS`, `HUMI`, `LUMI` and `POWER` are passed over. The bridge sends a
report's items, all and in order, exactly when the node has none of the
sensors behind these (`metrics_complete_iff`).
-/
import Mathlib.Data.List.Infix
import OflMetrics.Bridge.PacketProcessor
import OflMetrics.Node.ReportItems

namespace OflMetrics

open Embed Embed.KeyValue

/-- No type of the bridge ends a key it does not know. -/
theorem nodeKeys_separate {k : List Char} (hk : k ∈ nodeKeys) (hno : k ∉ metricTypes) {t : List Char} (ht : t <:+ k) :
    t ∉ metricTypes := by
  have hall : ∀ k ∈ nodeKeys, k ∉ metricTypes → ∀ t ∈ k.tails, t ∉ metricTypes := by decide
  exact hall k hk hno t ((List.mem_tails t k).mpr ht)

theorem ItemOf.separate {it : Item} (h : ItemOf nodeKeys it) : Separate it :=
  ⟨h.wellFormed, fun hno _ ht => nodeKeys_separate h.key hno ht⟩

variable (bme280Presence : Bool) (config : ConfigT) (mainLoopCount : UInt32) (r : Readings)

/-- A node whose report has only keys the bridge knows. -/
def NoLostSensor : Prop :=
  bme280Presence = false ∧ byte0 config.capa &&& CAPA_LIGHT = 0 ∧ byte0 config.capa &&& CAPA_POWER = 0

theorem known_of_noLostSensor (h : NoLostSensor bme280Presence config) :
    ∀ it ∈ reportItems bme280Presence config mainLoopCount r, it.1 ∈ metricTypes := by
  obtain ⟨rfl, hlight, hpower⟩ := h
  intro it hit
  simp only [reportItems, bme280Items, lumiItems, powerItems, hlight, hpower, Bool.false_eq_true, ne_eq,
    not_true_eq_false, if_false, List.append_nil, List.mem_append] at hit
  rcases hit with (h | h) | h
  · exact ((batteryItems_ok _ _ _ _ h).mono (by decide)).key
  · exact ((ds1820Items_ok _ _ _ _ h).mono (by decide)).key
  · exact ((errorItems_ok _ _ h).mono (by decide)).key

/-- Each of the other sensors adds an item the bridge does not know. -/
theorem exists_unknown (h : ¬ NoLostSensor bme280Presence config) :
    ∃ it ∈ reportItems bme280Presence config mainLoopCount r, it.1 ∉ metricTypes := by
  by_cases hbme : bme280Presence = true
  · refine ⟨("PRESS".toList, Printf.zdec 4 r.pressure.toNat), ?_, by show "PRESS".toList ∉ metricTypes; decide⟩
    simp [reportItems, bme280Items, hbme]
  · by_cases hlight : config.capa[0] &&& CAPA_LIGHT = 0
    · have hpower : config.capa[0] &&& CAPA_POWER ≠ 0 := fun hp => h ⟨by simpa using hbme, hlight, hp⟩
      refine ⟨("POWER".toList, '+' :: Printf.zdec 5 (getPower r.powerAdc).2.toNat), ?_,
        by show "POWER".toList ∉ metricTypes; decide⟩
      simp [reportItems, powerItems, hpower]
    · refine ⟨("LUMI".toList, '+' :: Printf.zdec 5 (getLumi r.lightAdc).2.toNat), ?_,
        by show "LUMI".toList ∉ metricTypes; decide⟩
      simp [reportItems, lumiItems, hlight]

/-- A type and a value as the bridge sends them. -/
def sentPair (it : Item) : List Char × List Char := (toLower it.1, it.2)

/-- What the bridge sends of a report: the items of the keys it knows. -/
theorem insertPacket_report {influxdbUrl : List Char} (hurl : influxdbUrl ≠ []) (src dst : List Char) :
    insertPacket influxdbUrl ⟨src, dst, reportText bme280Presence config mainLoopCount r⟩ =
      some (((reportItems bme280Presence config mainLoopCount r).filter (·.1 ∈ metricTypes)).map (metricOf src)) :=
  insertPacket_items hurl (fun it hit => (reportItems_ok _ _ _ _ it hit).separate) (reportText_eq_render _ _ _ _)

/-- Nothing is lost exactly when every key is known. -/
theorem sent_eq_iff (src : List Char) (its : List Item) :
    ((its.filter (·.1 ∈ metricTypes)).map (metricOf src)).map (fun m => (m.type, m.val)) = its.map sentPair ↔
      ∀ it ∈ its, it.1 ∈ metricTypes := by
  constructor
  · intro h
    have hlen := congrArg List.length h
    simp only [List.length_map] at hlen
    simpa using List.length_filter_eq_length_iff.mp hlen
  · intro h
    rw [List.filter_eq_self.mpr (by simpa using h), List.map_map]
    rfl

/-- **When no metric is lost**: the bridge always ends, and sends exactly the
items of the report when the node has no BME280, no light and no power sensor. -/
theorem metrics_complete_iff {influxdbUrl : List Char} (hurl : influxdbUrl ≠ []) (src dst : List Char) :
    ∃ metrics, insertPacket influxdbUrl ⟨src, dst, reportText bme280Presence config mainLoopCount r⟩ = some metrics ∧
      (metrics.map (fun m => (m.type, m.val)) =
          (items (reportText bme280Presence config mainLoopCount r)).map sentPair ↔
        NoLostSensor bme280Presence config) := by
  refine ⟨_, insertPacket_report bme280Presence config mainLoopCount r hurl src dst, ?_⟩
  rw [items_reportText, sent_eq_iff]
  constructor
  · intro hknown
    by_contra hlost
    obtain ⟨it, hit, hno⟩ := exists_unknown bme280Presence config mainLoopCount r hlost
    exact hno (hknown it hit)
  · exact known_of_noLostSensor bme280Presence config mainLoopCount r

theorem metrics_complete_iff_sample :
    ∃ metrics, insertPacket "http://db".toList ⟨"99".toList, "01".toList, reportText true fullConfig 1 sampleReadings⟩ =
        some metrics ∧
      (metrics.map (fun m => (m.type, m.val)) = (items (reportText true fullConfig 1 sampleReadings)).map sentPair ↔
        NoLostSensor true fullConfig) :=
  metrics_complete_iff true fullConfig 1 sampleReadings (by decide) _ _

/-- Of a report with five items the bridge sends one. -/
theorem metrics_lost :
    ∃ metrics, insertPacket "http://db".toList ⟨"99".toList, "01".toList, reportText true fullConfig 1 sampleReadings⟩ =
        some metrics ∧
      metrics.map (fun m => (m.type, m.val)) = [("temp".toList, "21.50".toList)] ∧
      (items (reportText true fullConfig 1 sampleReadings)).map sentPair =
        [("temp".toList, "21.50".toList), ("press".toList, "1013".toList), ("humi".toList, "+45.00".toList),
          ("lumi".toList, "+00512".toList), ("power".toList, "+00000".toList)] := by
  rw [items_reportText]
  exact ⟨_, insertPacket_report true fullConfig 1 sampleReadings (by decide) _ _, by decide, by decide⟩

end OflMetrics
