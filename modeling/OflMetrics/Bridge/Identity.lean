/-
The identity that a metric is stored under.

It is made of the name the bridge has for a node, the first bytes of its address
in hexadecimal: different bytes give different names (`hexText_injective`), and
different names different tags in the database (`idTag_injective`).
-/
import OflMetrics.Bridge.DumpLine
import OflMetrics.Bridge.Influx

namespace OflMetrics

open Embed Embed.CString Embed.Printf

/-! ## Hexadecimal texts -/

theorem hex2_injective {b c : UInt8} (h : hex2 b = hex2 c) : b = c := by
  have hdigit : ∀ k l : Fin 16, (Nat.digitChar k).toUpper = (Nat.digitChar l).toUpper → k = l := by decide +kernel
  have hb := b.toNat_lt
  have hc := c.toNat_lt
  obtain ⟨hhigh, hrest⟩ := List.cons.inj h
  obtain ⟨hlow, -⟩ := List.cons.inj hrest
  have hdiv : b.toNat / 16 = c.toNat / 16 :=
    congrArg Fin.val (hdigit ⟨b.toNat / 16, by omega⟩ ⟨c.toNat / 16, by omega⟩ hhigh)
  have hmod : b.toNat % 16 = c.toNat % 16 :=
    congrArg Fin.val (hdigit ⟨b.toNat % 16, by omega⟩ ⟨c.toNat % 16, by omega⟩ hlow)
  refine UInt8.toNat_inj.mp ?_
  calc b.toNat = 16 * (b.toNat / 16) + b.toNat % 16 := (Nat.div_add_mod _ _).symm
    _ = 16 * (c.toNat / 16) + c.toNat % 16 := by rw [hdiv, hmod]
    _ = c.toNat := Nat.div_add_mod _ _

theorem hexText_cons (b : UInt8) (bs : List UInt8) : hexText (b :: bs) = hex2 b ++ hexText bs := rfl

theorem hexText_injective {bs cs : List UInt8} (hlen : bs.length = cs.length) (h : hexText bs = hexText cs) : bs = cs := by
  induction bs generalizing cs with
  | nil => exact (List.length_eq_zero_iff.mp hlen.symm).symm
  | cons b bs ih =>
    cases cs with
    | nil => cases hlen
    | cons c cs =>
      rw [hexText_cons, hexText_cons] at h
      obtain ⟨hfirst, hrest⟩ := List.append_inj h (by rw [length_hex2, length_hex2])
      rw [hex2_injective hfirst, ih (Nat.succ.inj hlen) hrest]

theorem isNumeral_hexText {bs : List UInt8} {c : Char} (h : c ∈ hexText bs) : IsNumeral c := by
  obtain ⟨b, -, hc⟩ := List.mem_flatMap.mp h
  exact isNumeral_hex2 hc

/-- A numeral's characters lie between the minus sign and the last digit. -/
theorem isNumeral_toNat {c : Char} (h : IsNumeral c) : 45 ≤ c.toNat ∧ c.toNat ≤ 70 := by
  rcases h with h | rfl | h
  · rw [Char.isDigit, Bool.and_eq_true, decide_eq_true_eq, decide_eq_true_eq] at h
    have hlow : 48 ≤ c.toNat := UInt32.le_iff_toNat_le.mp h.1
    have hhigh : c.toNat ≤ 57 := UInt32.le_iff_toNat_le.mp h.2
    omega
  · decide
  · simp only [List.mem_cons, List.not_mem_nil, or_false] at h
    rcases h with rfl | rfl | rfl | rfl | rfl | rfl <;> decide

/-- It is of Latin-1, and none of the characters below. -/
theorem isNumeral_but {c d : Char} (h : IsNumeral c) (hd : d.toNat < 45) : c.toNat < 256 ∧ c ≠ d := by
  have hrange := isNumeral_toNat h
  refine ⟨by omega, ?_⟩
  rintro rfl
  omega

theorem not_mem_hexText {c : Char} (hc : c.toNat < 45) (bs : List UInt8) : c ∉ hexText bs := fun h =>
  (isNumeral_but (isNumeral_hexText h) hc).2 rfl

/-! ## The identity in the database -/

/-- The tag of a metric is its node. -/
theorem idTag_influxSendmetric {m : Metric} (hnode : ∀ c ∈ m.node, IsNumeral c) :
    idTag (influxSendmetric m) = toLatin1 ("RDB_".toList ++ m.node) := by
  have hpercent : '%' ∉ m.node := fun h => (isNumeral_but (hnode _ h) (by decide)).2 rfl
  obtain ⟨rest, hline⟩ := influxSendmetric_id (m := m) hpercent
  have hsplit : "sensors,id=RDB_".toList ++ m.node ++ ",type=".toList ++ rest =
      "sensors,id=".toList ++ (("RDB_".toList ++ m.node) ++ ',' :: ("type=".toList ++ rest)) := by
    simp
  have hlength : (toLatin1 "sensors,id=".toList).length = 11 := rfl
  have hascii : ∀ c ∈ "RDB_".toList ++ m.node, c.toNat < 256 ∧ c ≠ ',' := by
    intro c hc
    rw [List.mem_append] at hc
    cases hc with
    | inl hc => exact latin1_but (s := "RDB_".toList) rfl c hc
    | inr hc => exact isNumeral_but (hnode c hc) (by decide)
  rw [idTag, hline, hsplit, toLatin1_append, List.drop_left' hlength]
  exact takeWhile_toLatin1 (by decide) hascii _

/-- Tags of numerals are the same only for the same numerals. -/
theorem idTag_injective {m m' : Metric} (hnode : ∀ c ∈ m.node, IsNumeral c) (hnode' : ∀ c ∈ m'.node, IsNumeral c)
    (htags : idTag (influxSendmetric m) = idTag (influxSendmetric m')) : m.node = m'.node := by
  have hascii {node : List Char} (h : ∀ c ∈ node, IsNumeral c) : ∀ c ∈ "RDB_".toList ++ node, c.toNat < 256 := by
    intro c hc
    rw [List.mem_append] at hc
    cases hc with
    | inl hc => exact (latin1_but (s := "RDB_".toList) (d := ',') rfl c hc).1
    | inr hc => exact lt_of_le_of_lt (isNumeral_toNat (h c hc)).2 (by decide)
  rw [idTag_influxSendmetric hnode, idTag_influxSendmetric hnode'] at htags
  have hback := congrArg latin1 htags
  rw [latin1_toLatin1 (hascii hnode), latin1_toLatin1 (hascii hnode')] at hback
  exact List.append_cancel_left hback

end OflMetrics
