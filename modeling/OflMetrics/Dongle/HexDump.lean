/-
The text of `dump_hex` of `ofldongle.c`: a line about the packet, then its
bytes in rows of sixteen, each row in hexadecimal and, behind that, as the
characters they are.

A reader of the columns gets the bytes of the packet back from the text, all
and nothing else (`readDump_dumpHexText`): the last row is filled up with blanks,
and what stands behind the columns is never taken for one.
-/
import OflMetrics.Bridge.DumpLine
import OflMetrics.PaquetOffset

namespace OflMetrics

open Embed Embed.CString Embed.Printf Embed.Traced

/-- What the driver notes of a packet it receives. -/
structure RxInfo where
  lqi : UInt8
  rxTime : UInt32

/-- `%02x` of a byte -/
def percent02x (b : UInt8) : List UInt8 :=
  [(Nat.digitChar (b.toNat / 16)).toUInt8, (Nat.digitChar (b.toNat % 16)).toUInt8]

/-- `%08x` -/
def percent08x (n : UInt32) : List UInt8 := (List.leftpad 8 '0' (Nat.toDigits 16 n.toNat)).map Char.toUInt8

/-- The first line, without its end. -/
def dumpHexTitle (p : Packet) (info : RxInfo) (pk : Paquet) : List UInt8 :=
  [ascii "RX: len=0x", percent02x p.length, ascii "(", percentD p.length.toNat, ascii ") lqi=0x", percent02x info.lqi,
    ascii "(", percentD info.lqi.toNat, ascii ") rx_time=0x", percent08x info.rxTime, ascii "(",
    percentD info.rxTime.toInt32.toInt, ascii ") smac=", macText pk.smac, ascii " dmac=", macText pk.dmac,
    ascii " len=", percentD pk.datalen.toNat].flatten

/-- `c` as it is put in `sss`. -/
def shownChar (c : UInt8) : UInt8 := if 0x20 ≤ c ∧ c ≤ 0x7E then c else 0x2E

/-- `n` columns of row `idxLigne` from `idxChar` on, and the end of the row,
with `sss` so far; and the counter after them, none if the function returned. -/
def dumpHexLine (p : Packet) (idxLigne : Nat) : Nat → Nat → UInt8 → List UInt8 → List UInt8 × Option UInt8
  | 0, _, offset, sss => (sss ++ ascii "\r\n", some offset)
  | n + 1, idxChar, offset, sss =>
    if offset ≥ p.length then
      ((List.replicate (PER_ROW - (idxChar + 1)) (ascii "   ")).flatten ++ ascii "   " ++ sss ++ ascii "\r\n", none)
    else
      let c := p.data (idxLigne * PER_ROW + idxChar + p.offset.toNat)
      let (text, next) := dumpHexLine p idxLigne n (idxChar + 1) (offset + 1) (sss ++ [shownChar c])
      (percent02x c ++ ascii " " ++ text, next)

/-- `n` rows from `idxLigne` on. -/
def dumpHexLines (p : Packet) : Nat → Nat → UInt8 → List UInt8
  | 0, _, _ => ascii "\r\n"
  | n + 1, idxLigne, offset =>
    let (text, next) := dumpHexLine p idxLigne PER_ROW 0 offset []
    match next with
    | none => ascii "~ " ++ text
    | some offset => ascii "~ " ++ text ++ dumpHexLines p n (idxLigne + 1) offset

/-- `dump_hex` -/
def dumpHexText (p : Packet) (info : RxInfo) (pk : Paquet) : List UInt8 :=
  dumpHexTitle p info pk ++ ascii "\r\n" ++ dumpHexLines p (p.length.toNat / PER_ROW + 1) 0 0

/-! ## Rows -/

/-- The columns of some bytes. -/
def cells (bs : List UInt8) : List UInt8 := bs.flatMap fun b => percent02x b ++ ascii " "

/-- The row of at most sixteen bytes, without its line end. -/
def rowText (bs : List UInt8) : List UInt8 :=
  ascii "~ " ++ cells bs ++ List.replicate (3 * (PER_ROW - bs.length)) 0x20 ++ bs.map shownChar

/-- A line with its end. -/
def crlfLine (l : List UInt8) : List UInt8 := l ++ ascii "\r\n"

theorem length_cells (bs : List UInt8) : (cells bs).length = 3 * bs.length := by
  induction bs with
  | nil => rfl
  | cons b bs ih =>
    show (percent02x b ++ ascii " " ++ cells bs).length = _
    rw [List.length_append, ih, List.length_cons, Nat.mul_succ, Nat.add_comm]
    rfl

theorem flatten_blanks (n : Nat) : (List.replicate n (ascii "   ")).flatten ++ ascii "   " = List.replicate (3 * (n + 1)) 0x20 := by
  induction n with
  | zero => rfl
  | succ n ih =>
    rw [List.replicate_succ, List.flatten_cons, List.append_assoc, ih, show 3 * (n + 1 + 1) = 3 + 3 * (n + 1) by omega,
      List.replicate_add]
    rfl

variable (p : Packet)

/-- The columns that are left of a row, in front of its end. -/
theorem dumpHexLine_eq (idxLigne : Nat) : ∀ n idxChar sss, idxLigne * PER_ROW + idxChar ≤ p.length.toNat →
    idxChar + n = PER_ROW →
    let k := min n (p.length.toNat - (idxLigne * PER_ROW + idxChar))
    let bs := p.data.slice (p.offset.toNat + (idxLigne * PER_ROW + idxChar)) k
    dumpHexLine p idxLigne n idxChar (UInt8.ofNat (idxLigne * PER_ROW + idxChar)) sss =
      (crlfLine (cells bs ++ List.replicate (3 * (n - k)) 0x20 ++ (sss ++ bs.map shownChar)),
        if k = n then some (UInt8.ofNat (idxLigne * PER_ROW + PER_ROW)) else none)
  | 0, idxChar, sss, hle, hsum => by
    rw [Nat.add_zero] at hsum
    subst hsum
    simp [dumpHexLine, crlfLine, cells]
  | n + 1, idxChar, sss, hle, hsum => by
    have hmax := p.length.toNat_lt
    have hoffset : (UInt8.ofNat (idxLigne * PER_ROW + idxChar)).toNat = idxLigne * PER_ROW + idxChar := by
      rw [UInt8.toNat_ofNat']
      omega
    by_cases hge : UInt8.ofNat (idxLigne * PER_ROW + idxChar) ≥ p.length
    · have hend : idxLigne * PER_ROW + idxChar = p.length.toNat := by
        rw [ge_iff_le, UInt8.le_iff_toNat_le, hoffset] at hge
        omega
      have hblanks : PER_ROW - (idxChar + 1) = n := by omega
      rw [dumpHexLine, if_pos hge]
      simp only [hend, Nat.sub_self, Nat.min_zero, Mem.slice_zero, hblanks, flatten_blanks]
      rw [if_neg (Nat.succ_ne_zero n).symm]
      simp [crlfLine, cells]
    · have hlt : idxLigne * PER_ROW + idxChar < p.length.toNat := by
        rw [ge_iff_le, UInt8.le_iff_toNat_le, hoffset] at hge
        omega
      have hnext : UInt8.ofNat (idxLigne * PER_ROW + idxChar) + 1 = UInt8.ofNat (idxLigne * PER_ROW + (idxChar + 1)) := by
        rw [← Nat.add_assoc]
        exact (UInt8.ofNat_add _ 1).symm
      have hmin : min (n + 1) (p.length.toNat - (idxLigne * PER_ROW + idxChar)) =
          min n (p.length.toNat - (idxLigne * PER_ROW + (idxChar + 1))) + 1 := by omega
      have ih := dumpHexLine_eq idxLigne n (idxChar + 1)
        (sss ++ [shownChar (p.data (idxLigne * PER_ROW + idxChar + p.offset.toNat))]) (by omega) (by omega)
      simp only [dumpHexLine, if_neg hge, hnext, ih]
      rw [hmin, Mem.slice_succ, Nat.add_comm _ p.offset.toNat]
      simp [crlfLine, cells, Nat.add_assoc, Nat.add_sub_add_right]

/-- The rows of `dump_hex`: sixteen bytes each, and the last row the rest. -/
theorem dumpHexLines_eq : ∀ n idxLigne, idxLigne * PER_ROW ≤ p.length.toNat →
    p.length.toNat / PER_ROW + 1 = idxLigne + n →
    dumpHexLines p n idxLigne (UInt8.ofNat (idxLigne * PER_ROW)) =
      (List.range' idxLigne n).flatMap fun r => crlfLine (rowText (p.data.slice (p.offset.toNat + r * PER_ROW)
        (min PER_ROW (p.length.toNat - r * PER_ROW))))
  | 0, idxLigne, hle, hsum => by
    have hlt := Nat.lt_mul_div_succ p.length.toNat (show 0 < PER_ROW by decide)
    rw [hsum, Nat.add_zero, Nat.mul_comm] at hlt
    exact absurd hle (Nat.not_le_of_lt hlt)
  | n + 1, idxLigne, hle, hsum => by
    have hrow := dumpHexLine_eq p idxLigne PER_ROW 0 [] (by omega) (by omega)
    simp only [Nat.add_zero, List.nil_append] at hrow
    rw [List.range'_succ, List.flatMap_cons, dumpHexLines, hrow]
    have htext : ascii "~ " ++ crlfLine (cells (p.data.slice (p.offset.toNat + idxLigne * PER_ROW)
          (min PER_ROW (p.length.toNat - idxLigne * PER_ROW))) ++
          List.replicate (3 * (PER_ROW - min PER_ROW (p.length.toNat - idxLigne * PER_ROW))) 0x20 ++
          (p.data.slice (p.offset.toNat + idxLigne * PER_ROW)
            (min PER_ROW (p.length.toNat - idxLigne * PER_ROW))).map shownChar) =
        crlfLine (rowText (p.data.slice (p.offset.toNat + idxLigne * PER_ROW)
          (min PER_ROW (p.length.toNat - idxLigne * PER_ROW)))) := by
      simp only [crlfLine, rowText, Mem.length_slice, List.append_assoc]
    have hdiv := Nat.div_add_mod p.length.toNat PER_ROW
    have hmod := Nat.mod_lt p.length.toNat (show 0 < PER_ROW by decide)
    by_cases hmore : idxLigne * PER_ROW + PER_ROW ≤ p.length.toNat
    · have hsucc : idxLigne * PER_ROW + PER_ROW = (idxLigne + 1) * PER_ROW := by rw [Nat.succ_mul]
      have ih := dumpHexLines_eq n (idxLigne + 1) (by omega) (by omega)
      simp only [if_pos (show min PER_ROW (p.length.toNat - idxLigne * PER_ROW) = PER_ROW by omega), htext, hsucc, ih]
    · -- This is the last row.
      have hlast : n = 0 := by
        simp only [PER_ROW] at *
        omega
      subst hlast
      simp only [if_neg (show ¬ min PER_ROW (p.length.toNat - idxLigne * PER_ROW) = PER_ROW by omega), htext]
      simp

/-- The bytes of row `r`. -/
def rowBytes (r : Nat) : List UInt8 :=
  p.data.slice (p.offset.toNat + r * PER_ROW) (min PER_ROW (p.length.toNat - r * PER_ROW))

theorem length_rowBytes_le (r : Nat) : (rowBytes p r).length ≤ PER_ROW := by
  rw [rowBytes, Mem.length_slice]
  exact Nat.min_le_left _ _

/-- The text of `dump_hex`, line by line. -/
theorem dumpHexText_eq (info : RxInfo) (pk : Paquet) :
    dumpHexText p info pk = terminate (ascii "\r\n")
      (dumpHexTitle p info pk :: (List.range (p.length.toNat / PER_ROW + 1)).map fun r => rowText (rowBytes p r)) := by
  have hlines := dumpHexLines_eq p (p.length.toNat / PER_ROW + 1) 0 (by omega) (by omega)
  rw [Nat.zero_mul] at hlines
  rw [dumpHexText, show (0 : UInt8) = UInt8.ofNat 0 from rfl, hlines, ← List.range_eq_range', terminate_cons, terminate,
    List.map_map, List.append_assoc, List.flatMap_def]
  rfl

/-- The rows hold the bytes of the packet, one after the other. -/
theorem flatMap_rowBytes : ∀ n i, i * PER_ROW ≤ p.length.toNat → p.length.toNat / PER_ROW + 1 = i + n →
    (List.range' i n).flatMap (rowBytes p) =
      p.data.slice (p.offset.toNat + i * PER_ROW) (p.length.toNat - i * PER_ROW)
  | 0, i, hle, hsum => by
    have hlt := Nat.lt_mul_div_succ p.length.toNat (show 0 < PER_ROW by decide)
    rw [hsum, Nat.add_zero, Nat.mul_comm] at hlt
    exact absurd hle (Nat.not_le_of_lt hlt)
  | n + 1, i, hle, hsum => by
    have hdiv := Nat.div_add_mod p.length.toNat PER_ROW
    have hmod := Nat.mod_lt p.length.toNat (show 0 < PER_ROW by decide)
    rw [List.range'_succ, List.flatMap_cons, rowBytes]
    by_cases hmore : i * PER_ROW + PER_ROW ≤ p.length.toNat
    · have hsucc : i * PER_ROW + PER_ROW = (i + 1) * PER_ROW := by rw [Nat.succ_mul]
      have hsplit : p.length.toNat - i * PER_ROW = PER_ROW + (p.length.toNat - (i + 1) * PER_ROW) := by omega
      rw [flatMap_rowBytes n (i + 1) (by omega) (by omega), hsplit, Mem.slice_add, Nat.min_eq_left (by omega), ← hsucc,
        Nat.add_assoc]
    · have hlast : n = 0 := by
        simp only [PER_ROW] at *
        omega
      rw [hlast, Nat.min_eq_right (by omega)]
      exact List.append_nil _

/-! ## Reading the columns -/

/-- The value of a hexadecimal digit. -/
def hexValue (c : UInt8) : Option Nat :=
  if 48 ≤ c ∧ c ≤ 57 then some (c.toNat - 48) else if 97 ≤ c ∧ c ≤ 102 then some (c.toNat - 87) else none

/-- The bytes of columns, up to a blank one. -/
def readCells : List UInt8 → List UInt8
  | a :: b :: _ :: cs => ((hexValue a).bind fun x => (hexValue b).map fun y => UInt8.ofNat (16 * x + y)).elim []
    fun c => c :: readCells cs
  | _ => []

/-- The bytes of a line. -/
def readRow (l : List UInt8) : List UInt8 :=
  if ascii "~ " <+: l then readCells ((l.drop 2).take (3 * PER_ROW)) else []

/-- The bytes of a dump. -/
def readDump (text : List UInt8) : List UInt8 := (lines (· == 10) text).flatMap readRow

theorem hexValue_digit {k : Nat} (hk : k < 16) : hexValue (Nat.digitChar k).toUInt8 = some k := by
  have hall : ∀ k : Fin 16, hexValue (Nat.digitChar k).toUInt8 = some k.val := by decide
  exact hall ⟨k, hk⟩

theorem readCells_cells (bs cs : List UInt8) : readCells (cells bs ++ cs) = bs ++ readCells cs := by
  induction bs with
  | nil => rfl
  | cons b bs ih =>
    have hb := b.toNat_lt
    have hbyte : UInt8.ofNat (16 * (b.toNat / 16) + b.toNat % 16) = b := by
      rw [Nat.div_add_mod, UInt8.ofNat_toNat]
    show readCells ((Nat.digitChar (b.toNat / 16)).toUInt8 :: (Nat.digitChar (b.toNat % 16)).toUInt8 :: 0x20 ::
      (cells bs ++ cs)) = _
    rw [readCells, hexValue_digit (by omega), hexValue_digit (Nat.mod_lt _ (by decide)), ih]
    simp only [Option.map_some, Option.bind_some, hbyte, Option.elim_some, List.cons_append]

theorem readCells_blank (n : Nat) : readCells (List.replicate n 0x20) = [] := by
  rcases n with _ | _ | _ | n
  · rfl
  · rfl
  · rfl
  · rfl

theorem readRow_rowText {bs : List UInt8} (h : bs.length ≤ PER_ROW) (e : List UInt8) : readRow (rowText bs ++ e) = bs := by
  have hcolumns : (cells bs ++ List.replicate (3 * (PER_ROW - bs.length)) 0x20).length = 3 * PER_ROW := by
    rw [List.length_append, length_cells, List.length_replicate]
    omega
  have hrest : (rowText bs ++ e).drop 2 =
      cells bs ++ List.replicate (3 * (PER_ROW - bs.length)) 0x20 ++ (bs.map shownChar ++ e) := by
    simp only [rowText, List.append_assoc]
    rfl
  have hpre : ascii "~ " <+: rowText bs ++ e := by
    simp only [rowText, List.append_assoc]
    exact List.prefix_append _ _
  rw [readRow, if_pos hpre, hrest, ← hcolumns, List.take_left, readCells_cells, readCells_blank, List.append_nil]

/-! ## What the lines are made of -/

/-- The characters of the first line. -/
def titleChars : List UInt8 := ascii "0123456789abcdefABCDEF-RX: len=()xqi_rtms"

theorem titleChars_plain : ∀ x ∈ titleChars, x ≠ 10 ∧ x ≠ 13 ∧ x ≠ 0x4F := by decide +kernel

theorem mem_percent02x {b x : UInt8} (h : x ∈ percent02x b) : x ∈ ascii "0123456789abcdef" := by
  have hdigit : ∀ k : Fin 16, (Nat.digitChar k).toUInt8 ∈ ascii "0123456789abcdef" := by decide
  have hb := b.toNat_lt
  simp only [percent02x, List.mem_cons, List.not_mem_nil, or_false] at h
  cases h with
  | inl h => exact h ▸ hdigit ⟨b.toNat / 16, by omega⟩
  | inr h => exact h ▸ hdigit ⟨b.toNat % 16, by omega⟩

theorem mem_toDigits {n : Nat} {c : Char} (h : c ∈ Nat.toDigits 16 n) : ∃ k : Fin 16, c = Nat.digitChar k := by
  induction n using Nat.strongRecOn with
  | ind n ih =>
    rw [Nat.toDigits_eq_if (by decide)] at h
    split at h
    · next hlt => exact ⟨⟨n, hlt⟩, List.mem_singleton.mp h⟩
    · rcases List.mem_append.mp h with h | h
      · exact ih (n / 16) (by omega) h
      · exact ⟨⟨n % 16, Nat.mod_lt _ (by decide)⟩, List.mem_singleton.mp h⟩

theorem mem_percent08x {n : UInt32} {x : UInt8} (h : x ∈ percent08x n) : x ∈ ascii "0123456789abcdef" := by
  have hdigit : ∀ k : Fin 16, (Nat.digitChar k).toUInt8 ∈ ascii "0123456789abcdef" := by decide
  obtain ⟨c, hc, rfl⟩ := List.mem_map.mp h
  rw [List.leftpad] at hc
  rcases List.mem_append.mp hc with hc | hc
  · rw [List.eq_of_mem_replicate hc]
    exact hdigit 0
  · obtain ⟨k, rfl⟩ := mem_toDigits hc
    exact hdigit k

theorem mem_percentD {i : Int} {x : UInt8} (h : x ∈ percentD i) : x ∈ ascii "0123456789ABCDEF-" := by
  have hdigit : ∀ k : Fin 10, (Char.ofNat (48 + k)).toUInt8 ∈ ascii "0123456789ABCDEF-" := by decide
  have hother : ['-', 'A', 'B', 'C', 'D', 'E', 'F'].all (fun c => (ascii "0123456789ABCDEF-").contains c.toUInt8) = true := by
    decide
  have hother := fun c hc => List.contains_iff_mem.mp (List.all_eq_true.mp hother c hc)
  obtain ⟨c, hc, rfl⟩ := List.mem_map.mp h
  rcases isNumeral_decInt hc with hc | hc | hc
  · obtain ⟨k, rfl⟩ := exists_digit hc
    exact hdigit k
  · exact hother c (hc ▸ List.mem_cons_self)
  · exact hother c (List.mem_cons_of_mem _ hc)

theorem mem_dumpHexTitle {info : RxInfo} {pk : Paquet} {x : UInt8} (h : x ∈ dumpHexTitle p info pk) : x ∈ titleChars := by
  have hfixed (s : String) (hs : (ascii s).all (titleChars.contains ·) = true) : ∀ x ∈ ascii s, x ∈ titleChars :=
    fun x hx => List.contains_iff_mem.mp (List.all_eq_true.mp hs x hx)
  have hlower := hfixed "0123456789abcdef" (by decide)
  have hnumber := hfixed "0123456789ABCDEF-" (by decide)
  have hupper := hfixed "0123456789ABCDEF" (by decide)
  have hbyte (b : UInt8) : ∀ x ∈ percent02x b, x ∈ titleChars := fun x hx => hlower x (mem_percent02x hx)
  have hdecimal (i : Int) : ∀ x ∈ percentD i, x ∈ titleChars := fun x hx => hnumber x (mem_percentD hx)
  have hmac (mac : Vector UInt8 8) : ∀ x ∈ macText mac, x ∈ titleChars := fun x hx => hupper x (mem_macText hx)
  have htime : ∀ x ∈ percent08x info.rxTime, x ∈ titleChars := fun x hx => hlower x (mem_percent08x hx)
  have hopen := hfixed "(" (by decide)
  simp only [dumpHexTitle, List.flatten_cons, List.flatten_nil, List.append_nil, List.mem_append] at h
  rcases h with h | h | h | h | h | h | h | h | h | h | h | h | h | h | h | h | h | h
  · exact hfixed "RX: len=0x" (by decide) x h
  · exact hbyte _ x h
  · exact hopen x h
  · exact hdecimal _ x h
  · exact hfixed ") lqi=0x" (by decide) x h
  · exact hbyte _ x h
  · exact hopen x h
  · exact hdecimal _ x h
  · exact hfixed ") rx_time=0x" (by decide) x h
  · exact htime x h
  · exact hopen x h
  · exact hdecimal _ x h
  · exact hfixed ") smac=" (by decide) x h
  · exact hmac _ x h
  · exact hfixed " dmac=" (by decide) x h
  · exact hmac _ x h
  · exact hfixed " len=" (by decide) x h
  · exact hdecimal _ x h

theorem shownChar_plain (c : UInt8) : shownChar c ≠ 10 ∧ shownChar c ≠ 13 := by
  unfold shownChar
  split
  · next h =>
    constructor
    · rintro rfl
      exact absurd h.1 (by decide)
    · rintro rfl
      exact absurd h.1 (by decide)
  · decide

/-- A row is one line. -/
theorem rowText_plain {bs : List UInt8} {x : UInt8} (h : x ∈ rowText bs) : x ≠ 10 ∧ x ≠ 13 := by
  have hdigits : ∀ x ∈ ascii "0123456789abcdef", x ≠ 10 ∧ x ≠ 13 := by decide +kernel
  simp only [rowText, List.mem_append] at h
  rcases h with ((h | h) | h) | h
  · have hall : ∀ x ∈ ascii "~ ", x ≠ 10 ∧ x ≠ 13 := by decide +kernel
    exact hall x h
  · obtain ⟨b, -, hb⟩ := List.mem_flatMap.mp h
    rcases List.mem_append.mp hb with hb | hb
    · exact hdigits x (mem_percent02x hb)
    · have hall : ∀ x ∈ ascii " ", x ≠ 10 ∧ x ≠ 13 := by decide +kernel
      exact hall x hb
  · rw [List.eq_of_mem_replicate h]
    decide
  · obtain ⟨c, -, rfl⟩ := List.mem_map.mp h
    exact shownChar_plain c

/-- **The dump can be read back**: its columns are the `length` bytes of the
packet from `offset` on, whatever these are. -/
theorem readDump_dumpHexText (info : RxInfo) (pk : Paquet) :
    readDump (dumpHexText p info pk) = p.data.slice p.offset.toNat p.length.toNat := by
  have hsplit (ls : List (List UInt8)) : terminate (ascii "\r\n") ls = terminate [10] (ls.map (· ++ [13])) := by
    rw [terminate, terminate, List.map_map]
    congr 2
    funext l
    exact (List.append_assoc l [13] [10]).symm
  have hlines : ∀ l ∈ (dumpHexTitle p info pk ::
      (List.range (p.length.toNat / PER_ROW + 1)).map fun r => rowText (rowBytes p r)).map (· ++ [13]),
      ∀ x ∈ l, (x == 10) = false := by
    intro l hl x hx
    obtain ⟨text, htext, rfl⟩ := List.mem_map.mp hl
    rw [beq_eq_false_iff_ne]
    rcases List.mem_append.mp hx with hx | hx
    · rcases List.mem_cons.mp htext with rfl | hrow
      · exact (titleChars_plain x (mem_dumpHexTitle p hx)).1
      · obtain ⟨r, -, rfl⟩ := List.mem_map.mp hrow
        exact (rowText_plain hx).1
    · rw [List.mem_singleton.mp hx]
      decide
  have htitle : readRow (dumpHexTitle p info pk ++ [13]) = [] := by
    refine if_neg fun hpre => ?_
    obtain ⟨t, ht⟩ := hpre
    have hhead : some (0x7E : UInt8) = some 0x52 := congrArg List.head? ht
    exact absurd hhead (by decide)
  have hrows := flatMap_rowBytes p (p.length.toNat / PER_ROW + 1) 0 (by omega) (by omega)
  simp only [Nat.zero_mul, Nat.add_zero, Nat.sub_zero, ← List.range_eq_range'] at hrows
  rw [readDump, dumpHexText_eq, hsplit, lines_terminate hlines (by decide), List.map_cons, List.flatMap_cons, htitle,
    List.nil_append, List.map_map, List.flatMap_map, ← hrows]
  refine List.flatMap_congr fun r _ => ?_
  exact readRow_rowText (length_rowBytes_le p r) [13]

end OflMetrics
