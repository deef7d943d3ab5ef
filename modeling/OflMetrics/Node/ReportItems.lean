/-
The report as a list of items.

* `reportText_eq_render`: the text is `KEY:VALUE;` for the items of
  `reportItems`, in order.
* `items_reportText`: the text reads back as these items.
-/
import OflMetrics.Node.Report
import OflMetrics.Embed.KeyValue

namespace OflMetrics

open Embed Embed.Traced Embed.Printf Embed.KeyValue

/-! ## The items of each section -/

def batteryItems (config : ConfigT) (mainLoopCount : UInt32) (r : Readings) : List Item :=
  if mainLoopCount % 5 = 0 then
    [("FWVER".toList, zdec 4 FW_VER), ("CAPA".toList, hex2 (byte1 config.capa) ++ hex2 (byte0 config.capa)),
      ("BATLEV".toList, dec r.batteryLevel.toNat), ("AWAKE_SEC".toList, dec r.awakeSec.toNat),
      ("MAIN_LOOP".toList, dec mainLoopCount.toNat)]
  else []

def ds1820TextItems : Option (UInt8 × UInt8 × UInt8) → List Item
  | some (sign, cel, frac) =>
    if cel = 85 then []
    else [("TEMP".toList, (if sign = 1 then '-' else '+') :: dec cel.toNat ++ '.' :: zdec 2 frac.toNat)]
  | none => []

def ds1820Items (bme280Presence : Bool) (config : ConfigT) (r : Readings) : List Item :=
  if UsesDs1820 bme280Presence config then ds1820TextItems r.ds1820 else []

def bme280Items (bme280Presence : Bool) (r : Readings) : List Item :=
  if bme280Presence then
    [("TEMP".toList, decInt (r.temperature.toInt.tdiv 100) ++ '.' :: zdecInt 2 (tempCenti r.temperature)),
      ("PRESS".toList, zdec 4 r.pressure.toNat),
      ("HUMI".toList, '+' :: dec (r.humidity.toNat / 100) ++ '.' :: zdec 2 (r.humidity.toNat % 100))]
  else []

def lumiItems (config : ConfigT) (r : Readings) : List Item :=
  if byte0 config.capa &&& CAPA_LIGHT ≠ 0 then [("LUMI".toList, '+' :: zdec 5 (getLumi r.lightAdc).2.toNat)] else []

def powerItems (config : ConfigT) (r : Readings) : List Item :=
  if byte0 config.capa &&& CAPA_POWER ≠ 0 then [("POWER".toList, '+' :: zdec 5 (getPower r.powerAdc).2.toNat)] else []

def errorItems (reportErr : Nat) : List Item :=
  if reportErr > 0 then [("ERROR".toList, zdec 4 reportErr)] else []

/-- `report_err`: 11 for the sensor's power-on value, 12 for a failed read. -/
def ds1820Err : Option (UInt8 × UInt8 × UInt8) → Nat
  | some (_, cel, _) => if cel = 85 then 11 else 0
  | none => 12

def reportErr (bme280Presence : Bool) (config : ConfigT) (r : Readings) : Nat :=
  if UsesDs1820 bme280Presence config then ds1820Err r.ds1820 else 0

def reportItems (bme280Presence : Bool) (config : ConfigT) (mainLoopCount : UInt32) (r : Readings) : List Item :=
  batteryItems config mainLoopCount r ++ ds1820Items bme280Presence config r ++ bme280Items bme280Presence r ++
    lumiItems config r ++ powerItems config r ++ errorItems (reportErr bme280Presence config r)

/-! ## The text of each section -/

@[simp] theorem texts_nil : texts [] = [] := rfl

@[simp] theorem texts_append (l l' : List NodeEvent) : texts (l ++ l') = texts l ++ texts l' :=
  List.filterMap_append

@[simp] theorem texts_sprintf (fields : List (List Char)) : texts (log (sprintf fields)) = [fields.flatten] := rfl

variable (bme280Presence : Bool) (config : ConfigT) (mainLoopCount : UInt32) (r : Readings)

theorem battery_text :
    (texts (log (batteryReport config mainLoopCount r))).flatten = render (batteryItems config mainLoopCount r) := by
  have hzero : mainLoopCount = 0 → mainLoopCount % 5 = 0 := fun h => by rw [h]; rfl
  unfold batteryReport batteryItems
  by_cases h : mainLoopCount % 5 = 0
  · rw [if_pos (.inr h), if_pos h]
    simp [render, Item.render]
  · rw [if_neg fun hh => h (hh.elim hzero id), if_neg h]
    rfl

theorem ds1820_text :
    (texts (log (ds1820Report bme280Presence config r))).flatten = render (ds1820Items bme280Presence config r) ∧
      val (ds1820Report bme280Presence config r) = reportErr bme280Presence config r := by
  unfold ds1820Report ds1820Items reportErr
  by_cases h : UsesDs1820 bme280Presence config
  · simp only [if_pos h]
    cases r.ds1820 with
    | none => exact ⟨rfl, rfl⟩
    | some reading =>
      obtain ⟨sign, cel, frac⟩ := reading
      by_cases hcel : cel = 85
      · simp only [ds1820Text, ds1820TextItems, ds1820Err, if_pos hcel]
        exact ⟨rfl, rfl⟩
      · simp only [ds1820Text, ds1820TextItems, ds1820Err, if_neg hcel]
        refine ⟨?_, rfl⟩
        simp [texts, sprintf, render, Item.render]
  · simp only [if_neg h]
    exact ⟨rfl, rfl⟩

theorem bme280_text :
    (texts (log (bme280Report bme280Presence r))).flatten = render (bme280Items bme280Presence r) := by
  unfold bme280Report bme280Items
  cases bme280Presence with
  | false => rfl
  | true =>
    simp only [decInt_natCast, zdecInt_natCast]
    simp [texts, sprintf, render, Item.render]

theorem lumi_text : (texts (log (lumiReport config r))).flatten = render (lumiItems config r) := by
  unfold lumiReport lumiItems
  by_cases h : config.capa[0] &&& CAPA_LIGHT ≠ 0
  · rw [if_pos ⟨h, rfl⟩, if_pos h]
    simp [render, Item.render]
  · rw [if_neg fun hh => h hh.1, if_neg h]
    rfl

theorem power_text : (texts (log (powerReport config r))).flatten = render (powerItems config r) := by
  unfold powerReport powerItems
  by_cases h : config.capa[0] &&& CAPA_POWER ≠ 0
  · rw [if_pos ⟨h, rfl⟩, if_pos h]
    simp [render, Item.render]
  · rw [if_neg fun hh => h hh.1, if_neg h]
    rfl

theorem error_text (e : Nat) : (texts (log (errorReport e))).flatten = render (errorItems e) := by
  unfold errorReport errorItems
  split
  · simp [render, Item.render]
  · rfl

theorem reportText_eq_render :
    reportText bme280Presence config mainLoopCount r = render (reportItems bme280Presence config mainLoopCount r) := by
  obtain ⟨htext, hval⟩ := ds1820_text bme280Presence config r
  have hstart : texts (if UsesDs1820 bme280Presence config then [.ds1820Start] else []) = [] := by split <;> rfl
  simp only [reportText, reportTexts, report, log_bind, log_tell, texts_append, hstart, List.nil_append,
    List.flatten_append, battery_text, htext, hval, bme280_text, lumi_text, power_text, error_text, reportItems,
    render_append, List.append_assoc]

/-! ## The items read back -/

theorem isPlain_of_isNumeral {c : Char} (h : IsNumeral c) : IsPlain c = true := by
  rcases h with h | rfl | h
  · have hc : c ≠ ':' ∧ c ≠ ';' := ⟨fun he => by rw [he] at h; exact absurd h (by decide),
      fun he => by rw [he] at h; exact absurd h (by decide)⟩
    simp [IsPlain, hc]
  · rfl
  · simp only [List.mem_cons, List.not_mem_nil, or_false] at h
    rcases h with rfl | rfl | rfl | rfl | rfl | rfl <;> rfl

@[simp] theorem all_isPlain_dec (n : Nat) : (dec n).all IsPlain = true :=
  List.all_eq_true.mpr fun _ hc => isPlain_of_isNumeral (isNumeral_dec hc)

@[simp] theorem all_isPlain_zdec (w n : Nat) : (zdec w n).all IsPlain = true :=
  List.all_eq_true.mpr fun _ hc => isPlain_of_isNumeral (isNumeral_zdec hc)

@[simp] theorem all_isPlain_decInt (i : Int) : (decInt i).all IsPlain = true :=
  List.all_eq_true.mpr fun _ hc => isPlain_of_isNumeral (isNumeral_decInt hc)

@[simp] theorem all_isPlain_zdecInt (w : Nat) (i : Int) : (zdecInt w i).all IsPlain = true :=
  List.all_eq_true.mpr fun _ hc => isPlain_of_isNumeral (isNumeral_zdecInt hc)

@[simp] theorem all_isPlain_hex2 (b : UInt8) : (hex2 b).all IsPlain = true :=
  List.all_eq_true.mpr fun _ hc => isPlain_of_isNumeral (isNumeral_hex2 hc)

/-- The keys of the status section. -/
def batteryKeys : List (List Char) :=
  ["FWVER".toList, "CAPA".toList, "BATLEV".toList, "AWAKE_SEC".toList, "MAIN_LOOP".toList]

/-- The keys of the BME280 section; the DS1820's is the first. -/
def bme280Keys : List (List Char) := ["TEMP".toList, "PRESS".toList, "HUMI".toList]

/-- The keys of the node. -/
def nodeKeys : List (List Char) :=
  batteryKeys ++ bme280Keys ++ ["LUMI".toList, "POWER".toList, "ERROR".toList]

/-- An item of a section with the keys `ks`, with parts that read back. -/
structure ItemOf (ks : List (List Char)) (it : Item) : Prop where
  key : it.1 ∈ ks
  wellFormed : it.WellFormed

theorem ItemOf.mono {ks ks' : List (List Char)} {it : Item} (h : ItemOf ks it) (hks : ∀ k ∈ ks, k ∈ ks') : ItemOf ks' it :=
  ⟨hks _ h.key, h.wellFormed⟩

/-- A section with other keys. -/
theorem filter_other {key : List Char} {ks : List (List Char)} {its : List Item} (h : ∀ it ∈ its, ItemOf ks it)
    (hks : key ∉ ks) : its.filter (·.1 = key) = [] :=
  List.filter_eq_nil_iff.mpr fun it hit he => hks (of_decide_eq_true he ▸ (h it hit).key)

theorem itemOf {ks : List (List Char)} {k v : List Char} (hk : k ∈ ks) (hplain : k.all IsPlain = true)
    (hv : v.all IsPlain = true) (hne : v ≠ []) : ItemOf ks (k, v) :=
  ⟨hk, hplain, hv, hne⟩

theorem zdec_ne_nil (w n : Nat) : zdec w n ≠ [] := fun h => dec_ne_nil n (List.append_eq_nil_iff.mp h).2

/-- A measured value, with its `+`. -/
theorem itemOf_plus {ks : List (List Char)} {k : List Char} (hk : k ∈ ks) (hplain : k.all IsPlain = true) (w n : Nat) :
    ItemOf ks (k, '+' :: zdec w n) := by
  refine itemOf hk hplain ?_ (List.cons_ne_nil _ _)
  simp [show IsPlain '+' = true from rfl]

theorem batteryItems_ok : ∀ it ∈ batteryItems config mainLoopCount r, ItemOf batteryKeys it := by
  unfold batteryItems
  split
  · simp only [List.forall_mem_cons]
    refine ⟨?_, ?_, ?_, ?_, ?_, List.forall_mem_nil _⟩
    · exact itemOf (by decide) rfl (by simp) (zdec_ne_nil _ _)
    · exact itemOf (by decide) rfl (by simp) (List.cons_ne_nil _ _)
    · exact itemOf (by decide) rfl (by simp) (dec_ne_nil _)
    · exact itemOf (by decide) rfl (by simp) (dec_ne_nil _)
    · exact itemOf (by decide) rfl (by simp) (dec_ne_nil _)
  · exact List.forall_mem_nil _

theorem ds1820Items_ok : ∀ it ∈ ds1820Items bme280Presence config r, ItemOf ["TEMP".toList] it := by
  unfold ds1820Items
  split
  · cases r.ds1820 with
    | none => exact List.forall_mem_nil _
    | some reading =>
      obtain ⟨sign, cel, frac⟩ := reading
      simp only [ds1820TextItems]
      split
      · exact List.forall_mem_nil _
      · simp only [List.forall_mem_cons]
        have hsign : IsPlain (if sign = 1 then '-' else '+') = true := by split <;> rfl
        refine ⟨itemOf (by decide) rfl ?_ (List.cons_ne_nil _ _), List.forall_mem_nil _⟩
        simp [hsign, show IsPlain '.' = true from rfl]
  · exact List.forall_mem_nil _

theorem bme280Items_ok : ∀ it ∈ bme280Items bme280Presence r, ItemOf bme280Keys it := by
  unfold bme280Items
  split
  · simp only [List.forall_mem_cons]
    have hdot : IsPlain '.' = true := rfl
    have hplus : IsPlain '+' = true := rfl
    refine ⟨?_, ?_, ?_, List.forall_mem_nil _⟩
    · exact itemOf (by decide) rfl (by simp [hdot]) (by simp)
    · exact itemOf (by decide) rfl (by simp) (zdec_ne_nil _ _)
    · exact itemOf (by decide) rfl (by simp [hdot, hplus]) (List.cons_ne_nil _ _)
  · exact List.forall_mem_nil _

theorem lumiItems_ok : ∀ it ∈ lumiItems config r, ItemOf ["LUMI".toList] it := by
  unfold lumiItems
  split
  · simp only [List.forall_mem_cons]
    exact ⟨itemOf_plus (by decide) rfl _ _, List.forall_mem_nil _⟩
  · exact List.forall_mem_nil _

theorem powerItems_ok : ∀ it ∈ powerItems config r, ItemOf ["POWER".toList] it := by
  unfold powerItems
  split
  · simp only [List.forall_mem_cons]
    exact ⟨itemOf_plus (by decide) rfl _ _, List.forall_mem_nil _⟩
  · exact List.forall_mem_nil _

theorem errorItems_ok (e : Nat) : ∀ it ∈ errorItems e, ItemOf ["ERROR".toList] it := by
  unfold errorItems
  split
  · simp only [List.forall_mem_cons]
    exact ⟨itemOf (by decide) rfl (by simp) (zdec_ne_nil _ _), List.forall_mem_nil _⟩
  · exact List.forall_mem_nil _

theorem reportItems_ok : ∀ it ∈ reportItems bme280Presence config mainLoopCount r, ItemOf nodeKeys it := by
  intro it hit
  simp only [reportItems, List.mem_append] at hit
  rcases hit with ((((h | h) | h) | h) | h) | h
  · exact (batteryItems_ok _ _ _ _ h).mono (by decide)
  · exact (ds1820Items_ok _ _ _ _ h).mono (by decide)
  · exact (bme280Items_ok _ _ _ h).mono (by decide)
  · exact (lumiItems_ok _ _ _ h).mono (by decide)
  · exact (powerItems_ok _ _ _ h).mono (by decide)
  · exact (errorItems_ok _ _ h).mono (by decide)

/-- The report reads back as its items. -/
theorem items_reportText :
    items (reportText bme280Presence config mainLoopCount r) = reportItems bme280Presence config mainLoopCount r := by
  rw [reportText_eq_render]
  exact items_render fun it hit => (reportItems_ok _ _ _ _ it hit).wellFormed

end OflMetrics
