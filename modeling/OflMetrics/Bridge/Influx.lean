/-
`PacketProcessor::influx_sendmetric`: the line of the InfluxDB protocol that
is posted for a metric. The identity comes before anything a node's message
has a say in (`influxSendmetric_id`); with a plain type the value stands behind
it as it is, less a plus sign (`influxSendmetric_eq`).
-/
import OflMetrics.Bridge.SerialReader
import OflMetrics.Embed.QString

namespace OflMetrics

open Embed Embed.QString

/-- `QString::toLatin1`. -/
def toLatin1 (s : List Char) : List UInt8 := s.map fun c => if c.toNat < 256 then UInt8.ofNat c.toNat else 0x3F

/-- `influx_sendmetric`: the bytes posted to the database. -/
def influxSendmetric (m : Metric) : List UInt8 :=
  let val := if m.val.head? = some '+' then m.val.tail else m.val
  toLatin1 (arg (arg (arg "sensors,id=RDB_%1,type=%2 value=%3".toList m.node) m.type) val)

/-- The value of the tag `id` of a posted line. -/
def idTag (line : List UInt8) : List UInt8 := (line.drop 11).takeWhile (· ≠ 0x2C)

/-- The value of the field `value` of a posted line. -/
def valueField (line : List UInt8) : List UInt8 := ((line.dropWhile (· ≠ 0x20)).drop 7)

theorem toLatin1_append (s t : List Char) : toLatin1 (s ++ t) = toLatin1 s ++ toLatin1 t := List.map_append

/-- Characters of Latin-1 come back. -/
theorem latin1_toLatin1 {s : List Char} (h : ∀ c ∈ s, c.toNat < 256) : latin1 (toLatin1 s) = s := by
  rw [latin1, toLatin1, List.map_map]
  refine (List.map_congr_left fun c hc => ?_).trans (List.map_id s)
  have hlt := h c hc
  have hbyte : (UInt8.ofNat c.toNat).toUInt32.toNat = c.toNat := by
    rw [UInt8.toNat_toUInt32, UInt8.toNat_ofNat']
    exact Nat.mod_eq_of_lt hlt
  simp only [Function.comp, if_pos hlt]
  exact Char.ext (UInt32.toNat_inj.mp hbyte)

/-- A text of Latin-1 without a character, by looking. -/
theorem latin1_but {d : Char} {s : List Char} (h : s.all (fun c => decide (c.toNat < 256) && c != d) = true) :
    ∀ c ∈ s, c.toNat < 256 ∧ c ≠ d := by
  simpa [List.all_eq_true] using h

/-- Text up to a character of Latin-1 that is not in it. -/
theorem takeWhile_toLatin1 {s : List Char} {d : Char} (hd : d.toNat < 256) (h : ∀ c ∈ s, c.toNat < 256 ∧ c ≠ d)
    (t : List Char) : (toLatin1 (s ++ d :: t)).takeWhile (· ≠ UInt8.ofNat d.toNat) = toLatin1 s := by
  have hbyte (c : Char) (hc : c.toNat < 256) : (UInt8.ofNat c.toNat).toNat = c.toNat := by
    rw [UInt8.toNat_ofNat']
    exact Nat.mod_eq_of_lt hc
  have hne : ∀ b ∈ toLatin1 s, decide (b ≠ UInt8.ofNat d.toNat) = true := by
    intro b hb
    obtain ⟨c, hc, rfl⟩ := List.mem_map.mp hb
    obtain ⟨hlt, hcd⟩ := h c hc
    rw [if_pos hlt]
    refine decide_eq_true fun he => hcd (Char.toNat_inj.mp ?_)
    rw [← hbyte c hlt, he, hbyte d hd]
  have hstop : toLatin1 (d :: t) = UInt8.ofNat d.toNat :: toLatin1 t := by
    rw [toLatin1, List.map_cons, if_pos hd]
    rfl
  rw [toLatin1_append, List.takeWhile_append_of_pos hne, hstop]
  simp

/-- What follows from that character on. -/
theorem dropWhile_toLatin1 {s : List Char} {d : Char} (hd : d.toNat < 256) (h : ∀ c ∈ s, c.toNat < 256 ∧ c ≠ d)
    (t : List Char) : (toLatin1 (s ++ d :: t)).dropWhile (· ≠ UInt8.ofNat d.toNat) = toLatin1 (d :: t) := by
  have hsplit := List.takeWhile_append_dropWhile (p := (· ≠ UInt8.ofNat d.toNat)) (l := toLatin1 (s ++ d :: t))
  rw [takeWhile_toLatin1 hd h] at hsplit
  rw [toLatin1_append] at hsplit ⊢
  exact List.append_cancel_left hsplit

variable {m : Metric}

/-- The line once the node is in place. -/
theorem arg_node (node : List Char) :
    arg "sensors,id=RDB_%1,type=%2 value=%3".toList node =
      ("sensors,id=RDB_".toList ++ node ++ ",type=".toList) ++ "%2 value=%3".toList := by
  have hsplit : "sensors,id=RDB_%1,type=%2 value=%3".toList =
      "sensors,id=RDB_".toList ++ "%1,type=%2 value=%3".toList := rfl
  rw [hsplit, arg_append (by decide), List.append_assoc, List.append_assoc]
  rfl

theorem plain_node {node : List Char} (hnode : '%' ∉ node) : '%' ∉ "sensors,id=RDB_".toList ++ node ++ ",type=".toList := by
  simp only [List.mem_append, not_or]
  exact ⟨⟨by decide, hnode⟩, by decide⟩

/-- The node stands in its place whatever the other arguments are. -/
theorem influxSendmetric_id (hnode : '%' ∉ m.node) :
    ∃ rest, influxSendmetric m = toLatin1 ("sensors,id=RDB_".toList ++ m.node ++ ",type=".toList ++ rest) := by
  rw [influxSendmetric, arg_node, arg_append (plain_node hnode), arg_append (plain_node hnode)]
  exact ⟨_, rfl⟩

/-- The line, when neither argument before the value has a place marker. -/
theorem influxSendmetric_eq (hnode : '%' ∉ m.node) (htype : '%' ∉ m.type) :
    influxSendmetric m = toLatin1 ("sensors,id=RDB_".toList ++ m.node ++ ",type=".toList ++ (m.type ++ " value=".toList) ++
      if m.val.head? = some '+' then m.val.tail else m.val) := by
  have htypeArg : arg "%2 value=%3".toList m.type = (m.type ++ " value=".toList) ++ "%3".toList := by
    rw [List.append_assoc]
    rfl
  have hplain : '%' ∉ m.type ++ " value=".toList := by
    simp only [List.mem_append, not_or]
    exact ⟨htype, by decide⟩
  have hvalArg (val : List Char) : arg "%3".toList val = val := List.append_nil val
  rw [influxSendmetric, arg_node, arg_append (plain_node hnode), htypeArg, arg_append (plain_node hnode),
    arg_append hplain, hvalArg, ← List.append_assoc]

end OflMetrics
