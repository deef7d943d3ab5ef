/-
What the bridge reads of the lines on its port.

A call of `ReadString` takes the bytes up to the line feed, if the timeout
does not come first (`readString_inTime`, and a case for each event that ends
the call). What was read before a timeout is thrown away, so of a line the
bridge sees the piece behind the last timeout: `linesRead` has both, and
`run_listen` says that the packets are made of the pieces.
-/
import Mathlib.Data.List.GetD
import OflMetrics.Bridge.SerialReader
import OflMetrics.Embed.Lines

namespace OflMetrics

open Embed Embed.CString

/-- The line feed. -/
def IsNewline (c : UInt8) : Bool := c = 10

/-- The bytes that arrive. -/
def bytesOf (es : List SerialEvent) : List UInt8 := es.filterMap fun | .byte c _ => some c | _ => none

/-- Bytes that arrive without a timeout. -/
def inTime (s : List UInt8) : List SerialEvent := s.map (.byte · false)

/-- The same, behind `n` calls that time out before their first byte. -/
def afterTimeouts (n : Nat) (s : List UInt8) : List SerialEvent := List.replicate n .timeout ++ inTime s

/-- No call times out behind its first byte, and nothing fails. -/
def Punctual (es : List SerialEvent) : Prop := ∃ n s, es = afterTimeouts n s

/-- An event with which `ReadString` returns. -/
def SerialEvent.ends : SerialEvent → Bool
  | .byte c late => c = 10 || late
  | .timeout | .failed => true

/-- The lines of what arrives, each with the piece of it that one call reads:
`line` is what came of the present one, and `piece` what the present call has
of it. -/
def linesRead (line piece : List UInt8) : List SerialEvent → List (List UInt8 × List UInt8)
  | [] => []
  | .byte c late :: es =>
    if c = 10 then (line, piece) :: linesRead [] [] es
    else linesRead (line ++ [c]) (if late then [] else piece ++ [c]) es
  | .timeout :: es => linesRead line [] es
  | .failed :: es => linesRead line [] es

/-- No line has 128 bytes before its line feed; `n` bytes of the present one
have come. -/
def LinesFit (n : Nat) : List UInt8 → Prop
  | [] => n < 128
  | b :: s => n < 128 ∧ LinesFit (if b = 10 then 0 else n + 1) s

theorem isNewline_of_not_mem {l : List UInt8} (h : 10 ∉ l) : ∀ b ∈ l, IsNewline b = false := by
  intro b hb
  have hne : b ≠ 10 := fun he => h (he ▸ hb)
  simpa [IsNewline] using hne

/-! ## Events -/

theorem bytesOf_append (es es' : List SerialEvent) : bytesOf (es ++ es') = bytesOf es ++ bytesOf es' :=
  List.filterMap_append

theorem bytesOf_inTime (s : List UInt8) : bytesOf (inTime s) = s := by
  induction s with
  | nil => rfl
  | cons b s ih => exact congrArg (b :: ·) ih

theorem bytesOf_afterTimeouts (n : Nat) (s : List UInt8) : bytesOf (afterTimeouts n s) = s := by
  induction n with
  | zero => exact bytesOf_inTime s
  | succ n ih => exact ih

theorem length_afterTimeouts (n : Nat) (s : List UInt8) : (afterTimeouts n s).length = n + s.length := by
  rw [afterTimeouts, List.length_append, List.length_replicate, inTime, List.length_map]

/-- One more byte. -/
theorem Punctual.byte {es : List SerialEvent} (h : Punctual es) (c : UInt8) : Punctual (es ++ [.byte c false]) := by
  obtain ⟨n, s, rfl⟩ := h
  refine ⟨n, s ++ [c], ?_⟩
  rw [afterTimeouts, afterTimeouts, List.append_assoc, inTime, inTime, List.map_append, List.map_singleton]

/-- One more timeout, with nothing read. -/
theorem Punctual.timeout {es : List SerialEvent} (h : Punctual es) (hnothing : bytesOf es = []) :
    Punctual (es ++ [.timeout]) := by
  obtain ⟨n, s, rfl⟩ := h
  rw [bytesOf_afterTimeouts] at hnothing
  subst hnothing
  refine ⟨n + 1, [], ?_⟩
  rw [afterTimeouts, afterTimeouts, inTime, List.map_nil, List.append_nil, List.append_nil, List.replicate_succ']

/-- Without the first of the events. -/
theorem Punctual.tail {e : SerialEvent} {es : List SerialEvent} (h : Punctual (e :: es)) : Punctual es := by
  obtain ⟨n, s, heq⟩ := h
  cases n with
  | succ n => exact ⟨n, s, (List.cons.inj heq).2⟩
  | zero =>
    cases s with
    | nil => cases heq
    | cons c s => exact ⟨0, s, (List.cons.inj heq).2⟩

/-- The bytes in front of the first event that ends a call. -/
theorem exists_inTime (es : List SerialEvent) :
    ∃ s rest, 10 ∉ s ∧ es = inTime s ++ rest ∧ ∀ e ∈ rest.head?, e.ends = true := by
  induction es with
  | nil => exact ⟨[], [], List.not_mem_nil, rfl, by simp⟩
  | cons e es ih =>
    cases hends : e.ends with
    | true => exact ⟨[], e :: es, List.not_mem_nil, rfl, by simpa using hends⟩
    | false =>
      obtain ⟨s, rest, hs, rfl, hrest⟩ := ih
      cases e with
      | timeout | failed => cases hends
      | byte c late =>
        simp only [SerialEvent.ends, Bool.or_eq_false_iff, decide_eq_false_iff_not] at hends
        obtain ⟨hc, rfl⟩ := hends
        refine ⟨c :: s, rest, fun hmem => ?_, rfl, hrest⟩
        cases List.mem_cons.mp hmem with
        | inl h => exact hc h.symm
        | inr h => exact hs h

theorem linesRead_inTime {s : List UInt8} (hs : 10 ∉ s) (line piece : List UInt8) (es : List SerialEvent) :
    linesRead line piece (inTime s ++ es) = linesRead (line ++ s) (piece ++ s) es := by
  induction s generalizing line piece with
  | nil => rw [List.append_nil, List.append_nil, inTime, List.map_nil, List.nil_append]
  | cons b s ih =>
    rw [List.mem_cons, not_or] at hs
    have hrest := ih hs.2 (line ++ [b]) (piece ++ [b])
    rw [List.append_assoc, List.append_assoc] at hrest
    simpa [inTime, linesRead, Ne.symm hs.1] using hrest

/-- The lines are those of the bytes. -/
theorem linesRead_lines (line piece : List UInt8) (es : List SerialEvent) :
    (linesRead line piece es).map (·.1) = linesFrom IsNewline line (bytesOf es) := by
  induction es generalizing line piece with
  | nil => rfl
  | cons e es ih =>
    cases e with
    | timeout => exact ih line []
    | failed => exact ih line []
    | byte c late =>
      have hbytes : bytesOf (.byte c late :: es) = c :: bytesOf es := rfl
      rw [hbytes, linesRead, linesFrom]
      by_cases hc : c = 10
      · simp only [hc, IsNewline, decide_true, if_true, List.map_cons, ih]
      · simp only [hc, IsNewline, decide_false, if_false, Bool.false_eq_true, ih]

/-- Without timeouts, a line is read whole. -/
theorem linesRead_whole (line s : List UInt8) :
    linesRead line line (inTime s) = (linesFrom IsNewline line s).map fun l => (l, l) := by
  induction s generalizing line with
  | nil => rfl
  | cons b s ih =>
    rw [inTime, List.map_cons, linesRead, linesFrom]
    by_cases hb : b = 10
    · simp only [hb, IsNewline, decide_true, if_true, List.map_cons]
      exact congrArg _ (ih [])
    · simp only [hb, IsNewline, decide_false, if_false, Bool.false_eq_true]
      exact ih (line ++ [b])

/-- Timeouts in front of the first byte are nothing to the lines. -/
theorem linesRead_afterTimeouts (n : Nat) (s : List UInt8) : linesRead [] [] (afterTimeouts n s) = linesRead [] [] (inTime s) := by
  induction n with
  | zero => rfl
  | succ n ih => exact ih

/-! ## Lines that fit -/

theorem LinesFit.lt {n : Nat} {s : List UInt8} (h : LinesFit n s) : n < 128 := by
  cases s with
  | nil => exact h
  | cons b s => exact h.1

theorem linesFit_append {l : List UInt8} (hl : 10 ∉ l) (n : Nat) (s : List UInt8) :
    LinesFit n (l ++ s) ↔ LinesFit (n + l.length) s := by
  induction l generalizing n with
  | nil => rfl
  | cons b l ih =>
    rw [List.mem_cons, not_or] at hl
    rw [List.cons_append, LinesFit, if_neg (Ne.symm hl.1), ih hl.2, List.length_cons, Nat.add_assoc, Nat.add_comm 1]
    refine ⟨fun h => h.2, fun h => ⟨?_, h⟩⟩
    have hlt := h.lt
    omega

theorem linesFit_terminate {ls : List (List UInt8)} (hls : ∀ l ∈ ls, 10 ∉ l ∧ l.length < 128) :
    LinesFit 0 (terminate [10] ls) := by
  induction ls with
  | nil => exact Nat.zero_lt_succ _
  | cons l ls ih =>
    obtain ⟨hmem, hlen⟩ := hls l List.mem_cons_self
    have hrest := ih fun l' h => hls l' (List.mem_cons_of_mem _ h)
    rw [terminate_cons, linesFit_append hmem, Nat.zero_add]
    exact ⟨hlen, hrest⟩

/-- Any lines of 128 bytes together. -/
theorem linesFit_short {s : List UInt8} {n : Nat} (h : n + s.length < 128) : LinesFit n (s ++ [10]) := by
  induction s generalizing n with
  | nil => exact ⟨h, Nat.zero_lt_succ _⟩
  | cons b s ih =>
    rw [List.length_cons] at h
    refine ⟨by omega, ih ?_⟩
    split <;> omega

/-! ## `ReadString` -/

/-- A string in memory, with its terminating zero; what lies behind is as it was. -/
structure Stored (old new : Mem UInt8) (l : List UInt8) : Prop where
  text : new.slice 0 l.length = l
  nul : new l.length = 0
  behind : ∀ i, l.length < i → new i = old i

/-- What is left of the string from `k` on. -/
theorem Stored.cstr {old new : Mem UInt8} {l : List UInt8} (h : Stored old new l) {k n : Nat} (hk : k ≤ l.length)
    (hn : l.length < n) : new.cstr 0 k (n - k) = (l.drop k).takeWhile (· ≠ 0) := by
  have hsplit : l.length = k + (l.length - k) := by omega
  have hnul : new (k + (l.length - k)) = 0 := by rw [← hsplit, h.nul]
  have htext := h.text
  rw [hsplit, Mem.slice_add, Nat.zero_add] at htext
  have hslice : l.drop k = new.slice k (l.length - k) := by
    conv_lhs => rw [← htext]
    exact List.drop_left' (Mem.length_slice _ _ _)
  rw [Mem.cstr_of_nul (by omega) hnul, hslice]

/-- Behind the string, a cleared buffer is still clear. -/
theorem Stored.cstr_behind {old new : Mem UInt8} {l : List UInt8} (h : Stored old new l) {k n : Nat}
    (hk : l.length < k) (hn : k < n) (hzero : ∀ i < n, old i = 0) : new.cstr 0 k (n - k) = [] := by
  have hnul : new (k + 0) = 0 := by
    rw [Nat.add_zero, h.behind k hk, hzero k hn]
  rw [Mem.cstr_of_nul (by omega) hnul, Mem.slice_zero]
  rfl

/-- The memory after some bytes have been read. -/
theorem copy_cons (m : Mem UInt8) (n : Nat) (b : UInt8) (s : List UInt8) :
    Mem.copy (Function.update m n b) (n + 1) (s.getD · 0) s.length =
      Mem.copy m n ((b :: s).getD · 0) (b :: s).length := by
  funext i
  rw [List.length_cons]
  rcases Nat.lt_trichotomy i n with h | h | h
  · rw [Mem.copy_apply_other (.inl (by omega)), Mem.copy_apply_other (.inl h), Function.update_of_ne (by omega)]
  · subst h
    rw [Mem.copy_apply_other (.inl (Nat.lt_succ_self _)), Function.update_self]
    simp [Mem.copy]
  · obtain ⟨j, rfl⟩ := Nat.exists_eq_add_of_lt h
    simp only [Mem.copy, Function.update_of_ne (show n + j + 1 ≠ n by omega)]
    rw [show n + j + 1 - (n + 1) = j by omega, show n + j + 1 - n = j + 1 by omega, List.getD_cons_succ]
    by_cases hj : j < s.length
    · rw [if_pos (by omega), if_pos (by omega)]
    · rw [if_neg (by omega), if_neg (by omega)]

/-- The bytes before the end of the call. -/
theorem readString_inTime {s : List UInt8} (hs : 10 ∉ s) (m : Mem UInt8) {n : Nat} (hn : n + s.length ≤ 128)
    (es : List SerialEvent) :
    readString 10 128 m n (inTime s ++ es) = readString 10 128 (m.copy n (s.getD · 0) s.length) (n + s.length) es := by
  induction s generalizing m n with
  | nil =>
    have hcopy : m.copy n (([] : List UInt8).getD · 0) 0 = m := funext fun i => by simp [Mem.copy]
    rw [List.length_nil, hcopy]
    rfl
  | cons b s ih =>
    rw [List.mem_cons, not_or] at hs
    rw [List.length_cons] at hn
    have hrest := ih hs.2 (Function.update m n b) (n := n + 1) (by omega)
    rw [copy_cons, Nat.add_assoc, Nat.add_comm 1, ← List.length_cons (a := b)] at hrest
    have hcons : inTime (b :: s) ++ es = .byte b false :: (inTime s ++ es) := rfl
    rw [hcons, readString, if_pos (by omega)]
    simpa only [if_neg (Ne.symm hs.1), Bool.false_eq_true, if_false] using hrest

/-- A line read in one call. -/
theorem readString_line {s : List UInt8} (hs : 10 ∉ s) (hlen : s.length < 128) (m : Mem UInt8) (late : Bool)
    (es : List SerialEvent) :
    ∃ m', readString 10 128 m 0 (inTime s ++ .byte 10 late :: es) = some ((s.length : Int) + 1, m', es) ∧
      Stored m m' (s ++ [10]) := by
  rw [readString_inTime hs m (by omega), readString, if_pos (by omega), Nat.zero_add]
  refine ⟨_, if_pos rfl, ?_, ?_, ?_⟩
  · refine List.ext_getElem (by simp) fun i hi _ => ?_
    rw [Mem.length_slice, List.length_append, List.length_singleton] at hi
    rw [Mem.getElem_slice, Nat.zero_add, Function.update_of_ne (by omega)]
    rcases Nat.lt_or_ge i s.length with h | h
    · rw [Function.update_of_ne (by omega), List.getElem_append_left h]
      simp [Mem.copy, h]
    · have hi' : i = s.length := by omega
      subst hi'
      simp
  · rw [List.length_append, List.length_singleton, Function.update_self]
  · intro i hi
    rw [List.length_append, List.length_singleton] at hi
    rw [Function.update_of_ne (by omega), Function.update_of_ne (by omega), Mem.copy_apply_other (.inr (by omega))]

/-- A call waits, with no line end in sight; or it returns a line; or it
returns none, and what it read is lost to the line. -/
theorem readString_cases {line : List UInt8} {es : List SerialEvent} (hfit : LinesFit line.length (bytesOf es))
    (m : Mem UInt8) :
    (readString 10 128 m 0 es = none ∧ linesRead line [] es = []) ∨
      ∃ ret m' rest line' rs, readString 10 128 m 0 es = some (ret, m', rest) ∧
        LinesFit line'.length (bytesOf rest) ∧ rest.length < es.length ∧
        linesRead line [] es = rs ++ linesRead line' [] rest ∧
        (ret ≤ 0 ∧ rs = [] ∨ ∃ l p : List UInt8, rs = [(l, p)] ∧ p.length < 128 ∧ ret = p.length + 1 ∧
          Stored m m' (p ++ [10])) := by
  obtain ⟨s, rest, hs, rfl, hends⟩ := exists_inTime es
  rw [bytesOf_append, bytesOf_inTime, linesFit_append hs] at hfit
  have hlt := hfit.lt
  have hlines := linesRead_inTime hs line [] rest
  have hread := readString_inTime hs m (n := 0) (by omega) rest
  rw [List.nil_append] at hlines
  rw [Nat.zero_add] at hread
  rw [hlines]
  cases rest with
  | nil =>
    refine .inl ⟨?_, rfl⟩
    rw [hread, readString, if_pos (by omega)]
  | cons e rest =>
    have hlength : rest.length < (inTime s ++ e :: rest).length := by
      rw [List.length_append, List.length_cons]
      omega
    rw [← List.length_append] at hfit
    refine .inr ?_
    cases e with
    | timeout =>
      rw [readString, if_pos (by omega)] at hread
      exact ⟨0, _, rest, line ++ s, [], hread, hfit, hlength, rfl, .inl ⟨Int.le_refl 0, rfl⟩⟩
    | failed =>
      rw [readString, if_pos (by omega)] at hread
      exact ⟨-2, _, rest, line ++ s, [], hread, hfit, hlength, rfl, .inl ⟨by decide, rfl⟩⟩
    | byte c late =>
      obtain ⟨-, hfit'⟩ : LinesFit (line ++ s).length (c :: bytesOf rest) := hfit
      by_cases hc : c = 10
      · subst hc
        obtain ⟨m', hret, hstored⟩ := readString_line hs (by omega) m late rest
        exact ⟨_, m', rest, [], [(line ++ s, s)], hret, hfit', hlength, rfl,
          .inr ⟨line ++ s, s, rfl, by omega, rfl, hstored⟩⟩
      · have hlate : late = true := by simpa [SerialEvent.ends, hc] using hends
        rw [readString, if_pos (by omega)] at hread
        simp only [if_neg hc, if_pos hlate] at hread
        refine ⟨0, _, rest, line ++ s ++ [c], [], hread, ?_, hlength, ?_, .inl ⟨Int.le_refl 0, rfl⟩⟩
        · rwa [if_neg hc, ← List.length_singleton (a := c), ← List.length_append] at hfit'
        · rw [linesRead, if_neg hc, if_pos hlate]
          rfl

/-! ## Packets -/

/-- A line that starts with `RX`. -/
def StartsRX (l : List UInt8) : Prop := l.take 2 = ascii "RX"

instance : DecidablePred StartsRX := fun l => inferInstanceAs (Decidable (l.take 2 = ascii "RX"))

/-- The string at `rx_buf+4`, when a line is in `rx_buf`. -/
def pastPrefix (l : List UInt8) : List UInt8 := ((l ++ [10]).drop 4).takeWhile (· ≠ 0)

section

variable (decode : List UInt8 → List Char)

/-- A packet of the fields of a string. -/
def packetFields (s : List UInt8) : BridgePacket :=
  let fields := (decode s).splitOn '|'
  ⟨fields.getD 0 [], fields.getD 1 [], fields.getD 3 []⟩

variable {decode} in
/-- With three `|` there are the fields that `initialize` needs. -/
theorem packetInitialize_fields (hd : ReadsAscii decode) {s : List UInt8} (h : 3 ≤ s.count 0x7C) (p : BridgePacket) :
    packetInitialize decode p s = (true, packetFields decode s) := by
  have hlen : ((decode s).splitOn '|').length > 3 := by
    rw [length_splitOn, hd.bars]
    omega
  simp only [packetInitialize, dif_pos hlen, packetFields]
  congr 2
  · exact (List.getD_eq_getElem _ _ (Nat.lt_trans (by decide) hlen)).symm
  · exact (List.getD_eq_getElem _ _ (Nat.lt_trans (by decide) hlen)).symm
  · exact (List.getD_eq_getElem _ _ hlen).symm

variable {decode} in
theorem packetInitialize_few (hd : ReadsAscii decode) {s : List UInt8} (h : s.count 0x7C < 3) (p : BridgePacket) :
    packetInitialize decode p s = (false, p) := by
  have hlen : ¬ ((decode s).splitOn '|').length > 3 := by
    rw [length_splitOn, hd.bars]
    omega
  rw [packetInitialize, dif_neg hlen]

/-- The packet made of a line, or of a piece of one. -/
def packetOf (l : List UInt8) : BridgePacket := (packetInitialize decode .new (pastPrefix l)).2

/-- The packets that are broadcast when a line, or a piece of one, is read. -/
def packetsOf (l : List UInt8) : List BridgePacket := if StartsRX l then [packetOf decode l] else []

theorem heard_line {old new : Mem UInt8} {l : List UInt8} (h : Stored old new (l ++ [10]))
    (hzero : ∀ i < BUFFER_SIZE, old i = 0) (hlen : l.length < 128) : heard decode (l.length + 1) new = packetsOf decode l := by
  have hcstr : new.cstr 0 4 (BUFFER_SIZE - 4) = pastPrefix l := by
    have hlength : (l ++ [10]).length < BUFFER_SIZE := by
      rw [List.length_append, List.length_singleton, BUFFER_SIZE]
      omega
    rcases Nat.lt_or_ge (l ++ [10]).length 4 with h4 | h4
    · rw [h.cstr_behind h4 (by decide) hzero, pastPrefix, List.drop_eq_nil_of_le (Nat.le_of_lt h4)]
      rfl
    · exact h.cstr h4 hlength
  have hchar (i : Nat) (hi : i < (l ++ [10]).length) : new i = (l ++ [10])[i] := by
    have hget := List.getElem_of_eq h.text (i := i) (by rwa [Mem.length_slice])
    rwa [Mem.getElem_slice, Nat.zero_add] at hget
  rw [heard, packetsOf, packetOf, hcstr, ← ite_and]
  refine if_congr ?_ rfl rfl
  match l, hchar with
  | [], _ => exact iff_of_false (fun hpos => absurd hpos.1 (by decide)) (by decide)
  | [a], hchar =>
    have h1 : new 1 = 10 := hchar 1 (Nat.lt_succ_self 1)
    refine iff_of_false (fun hrx => absurd (h1.symm.trans hrx.2.2) (by decide)) fun hrx => ?_
    have hlength := congrArg List.length hrx
    cases hlength
  | a :: b :: l, hchar =>
    have h0 : new 0 = a := hchar 0 (by simp)
    have h1 : new 1 = b := hchar 1 (by simp)
    rw [h0, h1, StartsRX]
    refine ⟨fun hrx => by rw [hrx.2.1, hrx.2.2]; rfl, fun hrx => ?_⟩
    injection hrx with ha hrx
    injection hrx with hb
    exact ⟨by simp only [List.length_cons]; omega, ha, hb⟩

/-! ## The thread -/

/-- A turn in which `ReadString` times out before its first byte. -/
theorem turn_timeout {t : SerialThread} (ht : t.state = 2 ∨ t.state = 3) {n : Nat} {s : List UInt8}
    (harriving : t.arriving = afterTimeouts (n + 1) s) (a : PortAnswers) :
    ∃ rxBuf, t.turn decode a = some { t with rxBuf, arriving := afterTimeouts n s } := by
  have hevents : t.arriving = .timeout :: afterTimeouts n s := harriving
  have hnot : ¬ (0 : Int) > 0 := by omega
  refine ⟨Function.update (t.rxBuf.fill 0 0 BUFFER_SIZE) 0 0, ?_⟩
  rcases ht with ht | ht
  · simp only [SerialThread.turn, ht, SerialThread.readString, hevents, readString, Nat.zero_lt_succ, if_true, Option.map_some,
      hnot, false_and, if_false]
  · have hnothing (m : Mem UInt8) : heard decode 0 m = [] := if_neg (by omega)
    simp only [SerialThread.turn, ht, SerialThread.readString, hevents, readString, Nat.zero_lt_succ, if_true, Option.map_some,
      hnothing, List.append_nil]

/-- A turn of the listening thread either waits, with no line end in sight, or
handles the beginning of what arrives. -/
theorem turn_listen {t : SerialThread} (ht : t.state = 3) {line : List UInt8}
    (hfit : LinesFit line.length (bytesOf t.arriving)) (a : PortAnswers) :
    (t.turn decode a = none ∧ linesRead line [] t.arriving = []) ∨
      ∃ t' line' rs, t.turn decode a = some t' ∧ t'.state = 3 ∧ LinesFit line'.length (bytesOf t'.arriving) ∧
        t'.arriving.length < t.arriving.length ∧
        linesRead line [] t.arriving = rs ++ linesRead line' [] t'.arriving ∧
        t'.broadcast = t.broadcast ++ rs.flatMap fun r => packetsOf decode r.2 := by
  obtain ⟨state, rxBuf, arriving, written, broadcast⟩ := t
  subst ht
  cases readString_cases hfit (rxBuf.fill 0 0 BUFFER_SIZE) with
  | inl hwaits =>
    refine .inl ⟨?_, hwaits.2⟩
    simp only [SerialThread.turn, SerialThread.readString, hwaits.1, Option.map_none]
  | inr hreturns =>
    obtain ⟨ret, m, rest, line', rs, hret, hfit', hlt, hlines, hwhat⟩ := hreturns
    refine .inr ⟨⟨3, m, rest, written, broadcast ++ heard decode ret m⟩, line', rs, ?_, rfl, hfit', hlt, hlines, ?_⟩
    · simp only [SerialThread.turn, SerialThread.readString, hret, Option.map_some]
    · cases hwhat with
      | inl hnothing =>
        obtain ⟨hneg, rfl⟩ := hnothing
        rw [heard, if_neg (by omega), List.flatMap_nil]
      | inr hline =>
        obtain ⟨l, p, rfl, hlen, rfl, hstored⟩ := hline
        have hzero : ∀ i < BUFFER_SIZE, rxBuf.fill 0 0 BUFFER_SIZE i = 0 := fun i hi => by
          rw [Mem.fill, if_pos (by omega)]
        rw [heard_line decode hstored hzero hlen, List.flatMap_singleton]

/-- **What is broadcast**: the packets of the pieces, of all that arrives when
there are turns enough for it. -/
theorem run_listen {t : SerialThread} (ht : t.state = 3) {line : List UInt8}
    (hfit : LinesFit line.length (bytesOf t.arriving)) (as : List PortAnswers) :
    ∃ rs, rs <+: linesRead line [] t.arriving ∧
      (t.run decode as).broadcast = t.broadcast ++ (rs.flatMap fun r => packetsOf decode r.2) ∧
      (t.arriving.length ≤ as.length → rs = linesRead line [] t.arriving) := by
  induction as generalizing t line with
  | nil =>
    refine ⟨[], List.nil_prefix, (List.append_nil _).symm, fun hle => ?_⟩
    rw [List.eq_nil_of_length_eq_zero (Nat.le_zero.mp hle)]
    rfl
  | cons a as ih =>
    rw [SerialThread.run]
    cases turn_listen decode ht hfit a with
    | inl hwaits =>
      obtain ⟨hturn, hlines⟩ := hwaits
      rw [hturn]
      exact ⟨[], List.nil_prefix, (List.append_nil _).symm, fun _ => hlines.symm⟩
    | inr hturns =>
      obtain ⟨t', line', rs, hturn, ht', hfit', hlt, hlines, hbroadcast⟩ := hturns
      obtain ⟨rs', hfirst, hrun, hall⟩ := ih ht' hfit'
      rw [hturn, hlines]
      refine ⟨rs ++ rs', (List.prefix_append_right_inj rs).mpr hfirst, ?_, fun hle => ?_⟩
      · rw [hrun, hbroadcast, List.append_assoc, List.flatMap_append]
      · rw [List.length_cons] at hle
        rw [hall (by omega)]

/-- Without timeouts between their bytes, the packets are those of the lines. -/
theorem run_afterTimeouts {t : SerialThread} (ht : t.state = 3) {n : Nat} {s : List UInt8}
    (harriving : t.arriving = afterTimeouts n s) (hfit : LinesFit 0 s) {as : List PortAnswers}
    (has : t.arriving.length ≤ as.length) :
    (t.run decode as).broadcast = t.broadcast ++ (lines IsNewline s).flatMap (packetsOf decode) := by
  have hbytes : LinesFit ([] : List UInt8).length (bytesOf t.arriving) := by
    rwa [harriving, bytesOf_afterTimeouts]
  obtain ⟨rs, -, hbroadcast, hall⟩ := run_listen decode ht hbytes as
  rw [hbroadcast, hall has, harriving, linesRead_afterTimeouts, linesRead_whole, List.flatMap_map, lines]

end

end OflMetrics
