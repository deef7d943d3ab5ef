/-
`SerialDeviceThread::specialChar` of the bridge, which copies a string with
each CR and LF written as two characters.

The input is cut at 254 characters, or at what its length is as an `int` if
that is less; the output is not. So the copy stays in its buffer exactly when
the characters that are copied, each CR and LF counted twice, are 254 at most
(`staysInBuffer_iff`).
-/
import OflMetrics.Bridge.SerialReader
import OflMetrics.CommandLine

namespace OflMetrics

open Embed Embed.Traced Embed.CString

/-- The array the loop writes, which `malloc` returned. -/
inductive EscapeBuf where
  | dst
  deriving DecidableEq, Repr

/-- `srcSz`: the length as an `int`, cut at `BUFFER_SIZE-1`. -/
def srcSz (src : List UInt8) : Int :=
  let srcSz := (Int32.ofNat src.length).toInt
  if srcSz > BUFFER_SIZE - 1 then BUFFER_SIZE - 1 else srcSz

/-- The body of the loop: what it writes for a character, and `posDst` after it. -/
def specialCharBody (c : UInt8) (posDst : Nat) (dst : Mem UInt8) : Traced (Access EscapeBuf) (Nat × Mem UInt8) :=
  if c = 0x0D then do
    let dst ← Mem.setT .dst dst posDst 0x5C
    let dst ← Mem.setT .dst dst (posDst + 1) 0x72
    return (posDst + 2, dst)
  else if c = 0x0A then do
    let dst ← Mem.setT .dst dst posDst 0x5C
    let dst ← Mem.setT .dst dst (posDst + 1) 0x6E
    return (posDst + 2, dst)
  else do
    let dst ← Mem.setT .dst dst posDst c
    return (posDst + 1, dst)

/-- The loop, with `n` characters to go. -/
def specialCharLoop (src : Mem UInt8) : Nat → Nat → Nat → Mem UInt8 → Traced (Access EscapeBuf) (Mem UInt8)
  | 0, _, _, dst => return dst
  | n + 1, posSrc, posDst, dst => do
    let (posDst, dst) ← specialCharBody (src posSrc) posDst dst
    specialCharLoop src n (posSrc + 1) posDst dst

/-- `specialChar`, of a string with its zero behind it; `heap` is what the
memory from `malloc` on holds. -/
def specialChar (heap : Mem UInt8) (src : List UInt8) : Traced (Access EscapeBuf) (Mem UInt8) :=
  let dst := heap.fill 0 0 BUFFER_SIZE
  specialCharLoop (fun i => src.getD i 0) (srcSz src).toNat 0 0 dst

/-! ## What is asked of it -/

/-- A character escaped. -/
def escapeChar (c : UInt8) : List UInt8 :=
  if c = 0x0D then ascii "\\r" else if c = 0x0A then ascii "\\n" else [c]

/-- A string escaped. -/
def escape (s : List UInt8) : List UInt8 := s.flatMap escapeChar

/-- The loop writes below the last byte of the buffer, which stays zero, and
the result is the string, or a prefix of it, escaped. -/
structure StaysInBuffer (heap : Mem UInt8) (src : List UInt8) : Prop where
  writes : ∀ i ∈ Access.writes .dst (log (specialChar heap src)), i < BUFFER_SIZE - 1
  terminated : val (specialChar heap src) (BUFFER_SIZE - 1) = 0
  text : ∃ s, s <+: src ∧ (val (specialChar heap src)).cstr 0 0 BUFFER_SIZE = escape s

/-- The characters that are copied. -/
def copiedPart (src : List UInt8) : List UInt8 := src.take (srcSz src).toNat

/-! ## The loop -/

theorem length_escape (s : List UInt8) : (escape s).length = s.length + s.countP IsTerminator := by
  induction s with
  | nil => rfl
  | cons c s ih =>
    have hchar : (escapeChar c).length = 1 + if IsTerminator c = true then 1 else 0 := by
      simp only [escapeChar, IsTerminator, decide_eq_true_eq]
      by_cases hcr : c = 0x0D
      · rw [if_pos hcr, if_pos (.inl hcr)]
        rfl
      · by_cases hlf : c = 0x0A
        · rw [if_neg hcr, if_pos hlf, if_pos (.inr hlf)]
          rfl
        · rw [if_neg hcr, if_neg hlf, if_neg fun h => h.elim hcr hlf]
          rfl
    rw [escape, List.flatMap_cons, List.length_append, hchar, List.countP_cons, List.length_cons]
    rw [escape] at ih
    rw [ih]
    omega

/-- The body writes the character escaped. -/
theorem specialCharBody_spec (c : UInt8) (posDst : Nat) (dst : Mem UInt8) :
    (val (specialCharBody c posDst dst)).1 = posDst + (escapeChar c).length ∧
      Mem.Wrote dst (val (specialCharBody c posDst dst)).2 posDst (escapeChar c) ∧
      Access.writes .dst (log (specialCharBody c posDst dst)) = Mem.span posDst (escapeChar c).length := by
  have htwo (a b : UInt8) : Mem.Wrote dst (Function.update (Function.update dst posDst a) (posDst + 1) b) posDst [a, b] :=
    (Mem.Wrote.update a).append (.update b)
  unfold specialCharBody escapeChar
  by_cases hcr : c = 0x0D
  · rw [if_pos hcr, if_pos hcr]
    exact ⟨rfl, htwo _ _, rfl⟩
  · rw [if_neg hcr, if_neg hcr]
    by_cases hlf : c = 0x0A
    · rw [if_pos hlf, if_pos hlf]
      exact ⟨rfl, htwo _ _, rfl⟩
    · rw [if_neg hlf, if_neg hlf]
      exact ⟨rfl, .update c, rfl⟩

/-- The loop writes the rest of the characters escaped. -/
theorem specialCharLoop_spec (src : Mem UInt8) (n posSrc posDst : Nat) (dst : Mem UInt8) :
    Mem.Wrote dst (val (specialCharLoop src n posSrc posDst dst)) posDst (escape (src.slice posSrc n)) ∧
      Access.writes .dst (log (specialCharLoop src n posSrc posDst dst)) =
        Mem.span posDst (escape (src.slice posSrc n)).length := by
  induction n generalizing posSrc posDst dst with
  | zero =>
    rw [Mem.slice_zero]
    exact ⟨.nil, rfl⟩
  | succ n ih =>
    obtain ⟨hpos, hwrote, hwrites⟩ := specialCharBody_spec (src posSrc) posDst dst
    have hcons : escape (src.slice posSrc (n + 1)) = escapeChar (src posSrc) ++ escape (src.slice (posSrc + 1) n) := by
      rw [Mem.slice_succ, escape, List.flatMap_cons, escape]
    rw [specialCharLoop, val_bind, log_bind, Access.writes_append, hwrites, hcons, List.length_append, Mem.span_add]
    generalize val (specialCharBody (src posSrc) posDst dst) = next at hpos hwrote ⊢
    obtain ⟨posDst', dst'⟩ := next
    obtain rfl : posDst' = posDst + (escapeChar (src posSrc)).length := hpos
    obtain ⟨hrest, hrestWrites⟩ := ih (posSrc + 1) (posDst + (escapeChar (src posSrc)).length) dst'
    exact ⟨hwrote.append hrest, congrArg _ hrestWrites⟩

theorem srcSz_le (src : List UInt8) : srcSz src ≤ 254 ∧ srcSz src ≤ src.length := by
  have hint : (Int32.ofNat src.length).toInt ≤ src.length := by
    have hsize : (Int32.size : Int) = 4294967296 := rfl
    rw [Int32.toInt_ofNat', Int.bmod_def, hsize]
    split
    · omega
    · omega
  simp only [srcSz, show ((BUFFER_SIZE : Int) - 1) = 254 from rfl]
  split
  · exact ⟨Int.le_refl _, by omega⟩
  · exact ⟨by omega, hint⟩

/-- What the loop copies is the beginning of the string. -/
theorem slice_copiedPart (src : List UInt8) :
    Mem.slice (fun i => src.getD i 0) 0 (srcSz src).toNat = copiedPart src := by
  have hle := (srcSz_le src).2
  exact Mem.slice_getD (by omega) 0

/-- **When the copy stays in its buffer**: the copied characters, CR and LF
counted twice, are 254 at most. -/
theorem staysInBuffer_iff (heap : Mem UInt8) (src : List UInt8) (hsrc : ∀ c ∈ src, c ≠ 0) :
    StaysInBuffer heap src ↔ (copiedPart src).length + (copiedPart src).countP IsTerminator ≤ 254 := by
  have hspec := specialCharLoop_spec (fun i => src.getD i 0) (srcSz src).toNat 0 0 (heap.fill 0 0 BUFFER_SIZE)
  rw [slice_copiedPart] at hspec
  obtain ⟨hwrote, hwrites⟩ := hspec
  have hzero : ∀ i, i < 255 → heap.fill 0 0 BUFFER_SIZE i = 0 := by
    intro i hi
    simp [Mem.fill, BUFFER_SIZE, hi]
  rw [← length_escape]
  constructor
  · intro h
    by_contra hlong
    have hmem : 254 ∈ Access.writes .dst (log (specialChar heap src)) := by
      rw [specialChar, hwrites]
      exact Mem.mem_span.mpr ⟨Nat.zero_le _, by omega⟩
    exact Nat.lt_irrefl _ (h.writes 254 hmem)
  · intro hfits
    refine ⟨fun i hi => ?_, ?_, copiedPart src, List.take_prefix _ _, ?_⟩
    · rw [specialChar, hwrites] at hi
      have hlt := (Mem.mem_span.mp hi).2
      simp only [BUFFER_SIZE]
      omega
    · rw [specialChar, hwrote.outside _ (.inr (by simp only [BUFFER_SIZE]; omega))]
      exact hzero 254 (by decide)
    · have hplain : ∀ c ∈ escape (copiedPart src), c ≠ 0 := by
        intro c hc
        obtain ⟨d, hd, hcd⟩ := List.mem_flatMap.mp hc
        have hne := hsrc d (List.mem_of_mem_take hd)
        unfold escapeChar at hcd
        split at hcd
        · exact fun h0 => absurd (h0 ▸ hcd) (by decide)
        · split at hcd
          · exact fun h0 => absurd (h0 ▸ hcd) (by decide)
          · rw [List.mem_singleton.mp hcd]
            exact hne
      exact hwrote.cstr_eq (hzero _ (by omega)) hplain (by simp only [BUFFER_SIZE]; omega)

/-- 128 line feeds do not fit. -/
theorem lineFeeds_overflow : ¬ StaysInBuffer (fun _ => 0) (List.replicate 128 0x0A) := by
  intro h
  have hspec := (specialCharLoop_spec (fun i => (List.replicate 128 0x0A).getD i 0)
    (srcSz (List.replicate 128 0x0A)).toNat 0 0 (Mem.fill (fun _ => 0) 0 0 BUFFER_SIZE)).2
  rw [slice_copiedPart] at hspec
  have hlength : (escape (copiedPart (List.replicate 128 0x0A))).length = 256 := by decide +kernel
  have hmem : 254 ∈ Access.writes .dst (log (specialChar (fun _ => 0) (List.replicate 128 0x0A))) := by
    rw [specialChar, hspec, hlength]
    exact Mem.mem_span.mpr ⟨by decide, by decide⟩
  exact Nat.lt_irrefl _ (h.writes 254 hmem)

theorem line_staysInBuffer : StaysInBuffer (fun _ => 0) (ascii ":info\r\n") :=
  (staysInBuffer_iff (fun _ => 0) (ascii ":info\r\n") (by decide +kernel)).mpr (by decide +kernel)

end OflMetrics
