/-
The line of `dump_human`, as the bridge reads it.

A report of printable characters comes back as it was sent, up to the longest,
whose line takes the 128 bytes of `ReadString` exactly (`dump_line_inverse`).
-/
import Mathlib.Data.List.TakeWhile
import OflMetrics.Bridge.SerialFacts
import OflMetrics.Dongle.Leak

namespace OflMetrics

open Embed Embed.CString Embed.Printf

/-- Bytes in hexadecimal, two digits each. -/
def hexText (bs : List UInt8) : List Char := bs.flatMap hex2

/-- What `dump_human` prints between `RX: ` and the payload. -/
def dumpFields (pk : Paquet) : List UInt8 :=
  macText pk.smac ++ 0x7C :: (macText pk.dmac ++ 0x7C :: (percent02X pk.datalen ++ [0x7C]))

theorem dumpHuman_eq (pk : Paquet) :
    dumpHuman pk = ascii "RX: " ++ (dumpFields pk ++ (pk.text ++ ascii "|\r\n")) := by
  have hbar : ascii "|" = [0x7C] := rfl
  simp [dumpHuman, dumpFields, hbar]

/-- The line without its line feed. -/
def dumpBody (pk : Paquet) : List UInt8 := ascii "RX: " ++ (dumpFields pk ++ (pk.text ++ [0x7C, 13]))

theorem dumpHuman_body (pk : Paquet) : dumpHuman pk = dumpBody pk ++ [10] := by
  have hend : ascii "|\r\n" = [0x7C, 13] ++ [10] := rfl
  simp only [dumpHuman_eq, hend, dumpBody, List.append_assoc]

/-! ## Digits -/

def hexDigits : List UInt8 := ascii "0123456789ABCDEF"

theorem hexDigits_plain : ∀ x ∈ hexDigits, x < 128 ∧ x ≠ 0 ∧ x ≠ 10 ∧ x ≠ 0x7C := by decide +kernel

theorem mem_percent02X {b x : UInt8} (h : x ∈ percent02X b) : x ∈ hexDigits := by
  have hdigit : ∀ k : Fin 16, (Nat.digitChar k).toUpper.toUInt8 ∈ hexDigits := by decide
  have hb := b.toNat_lt
  simp only [percent02X, hex2, List.map_cons, List.map_nil, List.mem_cons, List.not_mem_nil, or_false] at h
  cases h with
  | inl h => exact h ▸ hdigit ⟨b.toNat / 16, by omega⟩
  | inr h => exact h ▸ hdigit ⟨b.toNat % 16, by omega⟩

theorem percent02X_chars (b : UInt8) : (percent02X b).map Char.ofUInt8 = hex2 b := by
  have hdigit : ∀ k : Fin 16, Char.ofUInt8 (Nat.digitChar k).toUpper.toUInt8 = (Nat.digitChar k).toUpper := by decide
  have hb := b.toNat_lt
  have hhigh := hdigit ⟨b.toNat / 16, by omega⟩
  have hlow := hdigit ⟨b.toNat % 16, by omega⟩
  simp only [percent02X, hex2, List.map_cons, List.map_nil]
  rw [hhigh, hlow]

theorem mem_macText {mac : Vector UInt8 8} {x : UInt8} (h : x ∈ macText mac) : x ∈ hexDigits := by
  simp only [macText, List.mem_append] at h
  rcases h with ((h | h) | h) | h <;> exact mem_percent02X h

theorem macText_chars (mac : Vector UInt8 8) : (macText mac).map Char.ofUInt8 = hexText (mac.toList.take 4) := by
  have hfour : mac.toList.take 4 = [mac[0], mac[1], mac[2], mac[3]] := by
    refine List.ext_getElem (by simp) fun i hi _ => ?_
    have hi4 : i < 4 := Nat.lt_of_lt_of_le hi (List.length_take_le _ _)
    obtain rfl | rfl | rfl | rfl : i = 0 ∨ i = 1 ∨ i = 2 ∨ i = 3 := by omega
    all_goals simp
  rw [hfour, macText]
  simp only [List.map_append, percent02X_chars, hexText, List.flatMap_cons, List.flatMap_nil, List.append_nil,
    List.append_assoc]

theorem mem_dumpFields {pk : Paquet} {x : UInt8} (h : x ∈ dumpFields pk) : x ∈ hexDigits ∨ x = 0x7C := by
  simp only [dumpFields, List.mem_append, List.mem_cons, List.not_mem_nil, or_false] at h
  rcases h with h | h | h | h | h | h
  · exact .inl (mem_macText h)
  · exact .inr h
  · exact .inl (mem_macText h)
  · exact .inr h
  · exact .inl (mem_percent02X h)
  · exact .inr h

theorem dumpFields_plain {pk : Paquet} {x : UInt8} (h : x ∈ dumpFields pk) : x < 128 ∧ x ≠ 0 ∧ x ≠ 10 := by
  cases mem_dumpFields h with
  | inl h =>
    obtain ⟨hascii, hnul, hnewline, -⟩ := hexDigits_plain x h
    exact ⟨hascii, hnul, hnewline⟩
  | inr h => exact h ▸ by decide

theorem count_dumpFields (pk : Paquet) (s : List UInt8) : 3 ≤ (dumpFields pk ++ s).count 0x7C := by
  simp only [dumpFields, List.count_append, List.count_cons, beq_self_eq_true, if_true]
  omega

/-! ## Fields -/

variable {decode : List UInt8 → List Char}

/-- The fields that are there whatever follows. -/
theorem packetFields_dump (hd : ReadsAscii decode) (pk : Paquet) (s : List UInt8) :
    ∃ y, decode (dumpFields pk ++ s) = (dumpFields pk).map Char.ofUInt8 ++ y ∧
      packetFields decode (dumpFields pk ++ s) =
        ⟨hexText (pk.smac.toList.take 4), hexText (pk.dmac.toList.take 4), y.takeWhile (· != '|')⟩ := by
  obtain ⟨y, hy⟩ := hd.front (dumpFields pk) s fun b hb => (dumpFields_plain hb).1
  refine ⟨y, hy.symm, ?_⟩
  have hbar : Char.ofUInt8 0x7C = '|' := rfl
  have hdigits {l : List UInt8} (hl : ∀ x ∈ l, x ∈ hexDigits) : '|' ∉ l.map Char.ofUInt8 := by
    intro hmem
    obtain ⟨x, hx, hchar⟩ := List.mem_map.mp hmem
    exact (hexDigits_plain x (hl x hx)).2.2.2 (ofUInt8_inj (hchar.trans hbar.symm))
  have hsplit : (decode (dumpFields pk ++ s)).splitOn '|' =
      (macText pk.smac).map Char.ofUInt8 :: (macText pk.dmac).map Char.ofUInt8 ::
        (percent02X pk.datalen).map Char.ofUInt8 :: y.splitOn '|' := by
    rw [← hy, dumpFields]
    simp only [List.map_append, List.map_cons, List.map_nil, List.append_assoc, List.cons_append, List.nil_append, hbar]
    rw [List.splitOn_append_cons_self_of_not_mem (hdigits fun _ => mem_macText),
      List.splitOn_append_cons_self_of_not_mem (hdigits fun _ => mem_macText),
      List.splitOn_append_cons_self_of_not_mem (hdigits fun _ => mem_percent02X)]
  have hmsg : (y.splitOn '|').getD 0 [] = y.takeWhile (· != '|') := by
    rw [List.getD_eq_getElem?_getD, ← List.head?_eq_getElem?, head_splitOn, Option.getD_some]
  simp only [packetFields, hsplit, List.getD_cons_zero, List.getD_cons_succ, hmsg, macText_chars]

/-! ## The round trip -/

/-- A report of printable characters but `|`, with nothing behind it. -/
structure Printable (pq : Paquet) : Prop where
  short : pq.datalen.toNat ≤ 100
  printable : ∀ i < pq.datalen.toNat, 0x20 ≤ pq.data i ∧ pq.data i ≤ 0x7E ∧ pq.data i ≠ 0x7C
  cleared : ∀ i, pq.datalen.toNat ≤ i → i < paquetMaxDatasize → pq.data i = 0

theorem Printable.payload_printable {pq : Paquet} (h : Printable pq) {x : UInt8} (hx : x ∈ pq.payload) :
    0x20 ≤ x ∧ x ≤ 0x7E ∧ x ≠ 0x7C := by
  obtain ⟨i, hi, rfl⟩ := List.getElem_of_mem hx
  rw [Paquet.payload, Mem.length_slice] at hi
  have hget : pq.payload[i] = pq.data i := by
    simp only [Paquet.payload, Mem.getElem_slice, Nat.zero_add]
  rw [hget]
  exact h.printable i hi

theorem Printable.mem_payload {pq : Paquet} (h : Printable pq) {x : UInt8} (hx : x ∈ pq.payload) :
    x < 128 ∧ x ≠ 0 ∧ x ≠ 10 ∧ x ≠ 0x7C := by
  obtain ⟨hlow, hhigh, hbar⟩ := h.payload_printable hx
  refine ⟨UInt8.lt_of_le_of_lt hhigh (by decide), fun h0 => ?_, fun h10 => ?_, hbar⟩
  · exact absurd (h0 ▸ hlow) (by decide)
  · exact absurd (h10 ▸ hlow) (by decide)

/-- The string at `data` is the payload. -/
theorem Printable.text {pq : Paquet} (h : Printable pq) : pq.text = pq.payload := by
  have hshort := h.short
  have hlen : pq.payload.length = pq.datalen.toNat := Mem.length_slice _ _ _
  refine Mem.cstr_eq ?_ ?_ (fun a ha => (h.mem_payload ha).2.1) (by omega)
  · rw [hlen]
    exact Mem.slice_store_other (.inl (by rw [paquetMaxDatasize]; omega))
  · rw [hlen, Nat.zero_add, Mem.store_apply_other (.inl (by rw [paquetMaxDatasize]; omega))]
    exact h.cleared _ (Nat.le_refl _) (by rw [paquetMaxDatasize]; omega)

theorem Printable.mem_dumpBody {pq : Paquet} (h : Printable pq) {x : UInt8} (hx : x ∈ dumpBody pq) :
    x ≠ 0 ∧ x ≠ 10 := by
  rw [dumpBody, h.text, List.mem_append, List.mem_append, List.mem_append] at hx
  rcases hx with hx | hx | hx | hx
  · exact (by decide +kernel : ∀ x ∈ ascii "RX: ", x ≠ 0 ∧ x ≠ 10) x hx
  · exact (dumpFields_plain hx).2
  · exact ⟨(h.mem_payload hx).2.1, (h.mem_payload hx).2.2.1⟩
  · exact (by decide +kernel : ∀ x ∈ [(0x7C : UInt8), 13], x ≠ 0 ∧ x ≠ 10) x hx

/-- The line up to its end. -/
theorem Printable.dumpBody_text {pq : Paquet} (h : Printable pq) :
    ∃ text, dumpBody pq = text ++ [13] ∧ ∀ x ∈ text, 0x20 ≤ x ∧ x ≤ 0x7E := by
  have hdigits : ∀ x ∈ hexDigits, 0x20 ≤ x ∧ x ≤ 0x7E := by decide +kernel
  refine ⟨ascii "RX: " ++ (dumpFields pq ++ (pq.payload ++ [0x7C])), ?_, fun x hx => ?_⟩
  · rw [dumpBody, h.text]
    simp only [List.append_assoc, List.cons_append, List.nil_append]
  · rw [List.mem_append, List.mem_append, List.mem_append] at hx
    rcases hx with hx | hx | hx | hx
    · exact (by decide +kernel : ∀ x ∈ ascii "RX: ", 0x20 ≤ x ∧ x ≤ 0x7E) x hx
    · cases mem_dumpFields hx with
      | inl hx => exact hdigits x hx
      | inr hx => exact hx ▸ by decide
    · obtain ⟨hlow, hhigh, -⟩ := h.payload_printable hx
      exact ⟨hlow, hhigh⟩
    · exact List.mem_singleton.mp hx ▸ by decide

theorem Printable.ne_nul {pq : Paquet} (h : Printable pq) : ∀ x ∈ dumpHuman pq, decide (x ≠ 0) = true := by
  intro x hx
  rw [dumpHuman_body, List.mem_append, List.mem_singleton] at hx
  refine decide_eq_true ?_
  cases hx with
  | inl hx => exact (h.mem_dumpBody hx).1
  | inr hx => exact hx ▸ by decide

theorem Printable.length_dumpHuman {pq : Paquet} (h : Printable pq) :
    (dumpHuman pq).length = 28 + pq.datalen.toNat := by
  rw [OflMetrics.length_dumpHuman, h.text, Paquet.payload, Mem.length_slice]

/-- What `initialize` makes of the line. -/
theorem Printable.packetFields (hd : ReadsAscii decode) {pq : Paquet} (h : Printable pq) :
    packetFields decode (dumpFields pq ++ (pq.payload ++ ascii "|\r\n")) =
      ⟨hexText (pq.smac.toList.take 4), hexText (pq.dmac.toList.take 4), pq.payload.map Char.ofUInt8⟩ := by
  have hascii : ∀ x ∈ dumpFields pq ++ (pq.payload ++ ascii "|\r\n"), x < 128 := by
    intro x hx
    rw [List.mem_append, List.mem_append] at hx
    rcases hx with hx | hx | hx
    · exact (dumpFields_plain hx).1
    · exact (h.mem_payload hx).1
    · exact (by decide +kernel : ∀ x ∈ ascii "|\r\n", x < 128) x hx
  obtain ⟨y, hy, hfields⟩ := packetFields_dump hd pq (pq.payload ++ ascii "|\r\n")
  rw [hd.ascii _ hascii, List.map_append, List.append_cancel_left_eq] at hy
  have hmsg : y.takeWhile (· != '|') = pq.payload.map Char.ofUInt8 := by
    have hbar : ascii "|\r\n" = 0x7C :: [13, 10] := rfl
    have hplain : ∀ c ∈ pq.payload.map Char.ofUInt8, (c != '|') = true := by
      intro c hc
      obtain ⟨x, hx, rfl⟩ := List.mem_map.mp hc
      refine bne_iff_ne.mpr fun he => (h.mem_payload hx).2.2.2 (ofUInt8_inj (he.trans ?_))
      rfl
    rw [← hy, List.map_append, List.takeWhile_append_of_pos hplain, hbar]
    exact List.append_nil _
  rw [hfields, hmsg]

/-- **The bridge reads what the dongle prints**: the line comes whole from one
call, and its packet has the two addresses and the payload. -/
theorem dump_line_inverse (hd : ReadsAscii decode) {pq : Paquet} (h : Printable pq) (rxBuf : Mem UInt8)
    (es : List SerialEvent) (p : BridgePacket) :
    ∃ (ret : Int) (read : Mem UInt8), readString 10 128 rxBuf 0 (inTime (dumpHuman pq) ++ es) = some (ret, read, es) ∧
      ret = (dumpHuman pq).length ∧ read.cstr 0 0 BUFFER_SIZE = dumpHuman pq ∧
      packetInitialize decode p (read.cstr 0 4 (BUFFER_SIZE - 4)) =
        (true, ⟨hexText (pq.smac.toList.take 4), hexText (pq.dmac.toList.take 4), pq.payload.map Char.ofUInt8⟩) := by
  have hlength := h.length_dumpHuman
  have hbody : (dumpHuman pq).length = (dumpBody pq).length + 1 := by
    rw [dumpHuman_body, List.length_append, List.length_singleton]
  have hshort := h.short
  have hnewline : 10 ∉ dumpBody pq := fun hmem => (h.mem_dumpBody hmem).2 rfl
  obtain ⟨read, hread, hstored⟩ := readString_line hnewline (by omega) rxBuf false es
  rw [← dumpHuman_body] at hstored
  have hevents : inTime (dumpHuman pq) ++ es = inTime (dumpBody pq) ++ .byte 10 false :: es := by
    rw [dumpHuman_body, inTime, inTime, List.map_append, List.append_assoc]
    rfl
  have hsize : (dumpHuman pq).length < BUFFER_SIZE := by
    rw [BUFFER_SIZE]
    omega
  have hret : ((dumpBody pq).length : Int) + 1 = (dumpHuman pq).length := by
    rw [hbody]
    rfl
  rw [hevents]
  refine ⟨_, read, hread, hret, ?_, ?_⟩
  · have hwhole := hstored.cstr (Nat.zero_le _) hsize
    rwa [List.drop_zero, List.takeWhile_eq_self_iff.mpr h.ne_nul] at hwhole
  · have hrest : (dumpHuman pq).drop 4 = dumpFields pq ++ (pq.payload ++ ascii "|\r\n") := by
      rw [dumpHuman_eq, h.text]
      rfl
    have hcstr := hstored.cstr (k := 4) (by omega) hsize
    rw [List.takeWhile_eq_self_iff.mpr fun x hx => h.ne_nul x (List.mem_of_mem_drop hx), hrest] at hcstr
    rw [hcstr, packetInitialize_fields hd (count_dumpFields pq _), h.packetFields hd]

/-- A report of 100 letters. -/
def longestReport : Paquet := { Paquet.zero with datalen := 100, data := fun i => if i < 100 then 0x41 else 0 }

theorem longestReport_printable : Printable longestReport where
  short := Nat.le_refl _
  printable i hi := by
    have hletter : longestReport.data i = 0x41 := if_pos hi
    rw [hletter]
    decide
  cleared i hi _ := if_neg (Nat.not_lt.mpr hi)

/-- Its line meets the limit of `ReadString`. -/
theorem dump_line_inverse_longest :
    ∃ read, readString 10 128 (fun _ => 0) 0 (inTime (dumpHuman longestReport) ++ []) = some (128, read, []) ∧
      packetInitialize latin1 .new (read.cstr 0 4 (BUFFER_SIZE - 4)) =
        (true, ⟨"00000000".toList, "00000000".toList, List.replicate 100 'A'⟩) := by
  obtain ⟨ret, read, hread, hret, -, hpacket⟩ :=
    dump_line_inverse latin1_readsAscii longestReport_printable (fun _ => 0) [] .new
  have hlength : (dumpHuman longestReport).length = 128 := longestReport_printable.length_dumpHuman
  rw [hret, hlength] at hread
  exact ⟨read, hread, hpacket.trans rfl⟩

end OflMetrics
