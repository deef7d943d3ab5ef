/-
Shift registers with feedback, as a bit-serial CRC runs one: the register
moves down one place a bit, and the polynomial `p` (bits reversed) is added
when the bit that leaves it differs from the bit that comes in.

Two messages leave registers that differ by what their difference leaves
(`feed_xor`), so an error is seen when the register it leaves, from zero, is
not zero: `feed_burst_ne_zero`, `feed_odd_ne_zero`, `feed_two_ne_zero`.
-/
import Mathlib.Data.List.Basic

namespace Embed.Lfsr

variable {w : Nat} (p : BitVec w)

/-- One bit. -/
def step (s : BitVec w) (b : Bool) : BitVec w := if s.getLsbD 0 ^^ b then (s >>> 1) ^^^ p else s >>> 1

/-- The register after the bits of a message. -/
def feed (s : BitVec w) (bits : List Bool) : BitVec w := bits.foldl (step p) s

@[simp] theorem feed_nil (s : BitVec w) : feed p s [] = s := rfl

@[simp] theorem feed_cons (s : BitVec w) (b : Bool) (bits : List Bool) :
    feed p s (b :: bits) = feed p (step p s b) bits := rfl

theorem feed_append (s : BitVec w) (bits bits' : List Bool) :
    feed p s (bits ++ bits') = feed p (feed p s bits) bits' := List.foldl_append

/-! ## Differences -/

theorem step_xor (s s' : BitVec w) (b b' : Bool) : step p (s ^^^ s') (b ^^ b') = step p s b ^^^ step p s' b' := by
  refine BitVec.eq_of_getLsbD_eq fun i _ => ?_
  unfold step
  rw [BitVec.getLsbD_xor]
  cases s.getLsbD 0 <;> cases s'.getLsbD 0 <;> cases b <;> cases b' <;>
    simp only [Bool.xor_true, Bool.xor_false, Bool.not_true, Bool.not_false, if_true, if_false, Bool.false_eq_true,
      BitVec.getLsbD_xor, BitVec.getLsbD_ushiftRight] <;>
    cases s.getLsbD (1 + i) <;> cases s'.getLsbD (1 + i) <;> cases p.getLsbD i <;> rfl

theorem feed_xor {bits bits' : List Bool} (h : bits.length = bits'.length) (s s' : BitVec w) :
    feed p (s ^^^ s') (List.zipWith xor bits bits') = feed p s bits ^^^ feed p s' bits' := by
  induction bits generalizing bits' s s' with
  | nil =>
    cases bits' with
    | nil => rfl
    | cons b' bits' => cases h
  | cons b bits ih =>
    cases bits' with
    | nil => cases h
    | cons b' bits' =>
      rw [List.zipWith_cons_cons, feed_cons, feed_cons, feed_cons, step_xor]
      exact ih (Nat.succ.inj h) _ _

/-- From one register two messages part as their difference parts from zero. -/
theorem feed_eq_iff {bits bits' : List Bool} (h : bits.length = bits'.length) (s : BitVec w) :
    feed p s bits = feed p s bits' ↔ feed p 0 (List.zipWith xor bits bits') = 0 := by
  have hxor := feed_xor p h s s
  rw [BitVec.xor_self] at hxor
  rw [show (0 : BitVec w) = 0#w from rfl, hxor, BitVec.xor_eq_zero_iff]

/-! ## Zeros -/

theorem step_zero : step p 0 false = 0 := by simp [step]

/-- Zeros before an error leave no trace of themselves. -/
theorem feed_zero_zeros (n : Nat) : feed p 0 (List.replicate n false) = 0 := by
  induction n with
  | zero => rfl
  | succ n ih => rw [List.replicate_succ, feed_cons, step_zero, ih]

variable {p}

/-- A step that leaves the last bit clear has not added the polynomial. -/
theorem step_clear (hp : p.msb = true) {s : BitVec w} {b : Bool} (h : (step p s b).getLsbD (w - 1) = false) :
    s.getLsbD 0 = b ∧ ∀ i, s.getLsbD (i + 1) = (step p s b).getLsbD i := by
  rw [BitVec.msb_eq_getLsbD_last] at hp
  have hw : 0 < w := by
    rcases Nat.eq_zero_or_pos w with h0 | hpos
    · rw [BitVec.getLsbD_of_ge p (w - 1) (by omega)] at hp
      cases hp
    · exact hpos
  have hlow : (s.getLsbD 0 ^^ b) = false := by
    cases hs : s.getLsbD 0 ^^ b with
    | false => rfl
    | true =>
      rw [step, hs] at h
      simp only [if_true, BitVec.getLsbD_xor, BitVec.getLsbD_ushiftRight, hp,
        BitVec.getLsbD_of_ge s (1 + (w - 1)) (by omega)] at h
      cases h
  refine ⟨by simpa using hlow, fun i => ?_⟩
  rw [step, hlow]
  simp only [Bool.false_eq_true, if_false, BitVec.getLsbD_ushiftRight, Nat.add_comm 1 i]

theorem step_eq_zero_iff (hp : p.msb = true) (s : BitVec w) : step p s false = 0 ↔ s = 0 := by
  refine ⟨fun h => ?_, fun h => by rw [h, step_zero]⟩
  have hbit (i : Nat) : (step p s false).getLsbD i = false := by rw [h]; exact BitVec.getLsbD_zero
  obtain ⟨hlow, hnext⟩ := step_clear hp (hbit (w - 1))
  refine BitVec.eq_of_getLsbD_eq fun i _ => ?_
  cases i with
  | zero => exact hlow.trans BitVec.getLsbD_zero.symm
  | succ i => exact ((hnext i).trans (hbit i)).trans BitVec.getLsbD_zero.symm

/-- Zeros behind an error do not hide it. -/
theorem feed_zeros_eq_zero_iff (hp : p.msb = true) (s : BitVec w) (n : Nat) :
    feed p s (List.replicate n false) = 0 ↔ s = 0 := by
  induction n generalizing s with
  | zero => rfl
  | succ n ih => rw [List.replicate_succ, feed_cons, ih, step_eq_zero_iff hp]

/-! ## Bursts -/

/-- At most `w` bits bring a register to zero only if they are what it holds. -/
theorem getLsbD_of_feed_eq_zero (hp : p.msb = true) {bits : List Bool} {s : BitVec w} (hw : bits.length ≤ w)
    (h : feed p s bits = 0) (i : Nat) : s.getLsbD i = bits.getD i false := by
  induction bits generalizing s i with
  | nil =>
    rw [feed_nil] at h
    rw [h]
    exact BitVec.getLsbD_zero
  | cons b bits ih =>
    rw [List.length_cons] at hw
    have hnext (i : Nat) : (step p s b).getLsbD i = bits.getD i false := ih (by omega) h i
    have hclear : (step p s b).getLsbD (w - 1) = false := by
      rw [hnext, List.getD_eq_getElem?_getD, List.getElem?_eq_none (by omega)]
      rfl
    obtain ⟨hlow, hshift⟩ := step_clear hp hclear
    cases i with
    | zero => exact hlow
    | succ i => rw [hshift, hnext, List.getD_cons_succ]

/-- The bits that a register holds bring it to zero. -/
theorem feed_self (s : BitVec w) {n : Nat} (hn : ∀ i, n ≤ i → s.getLsbD i = false) :
    feed p s ((List.range n).map s.getLsbD) = 0 := by
  induction n generalizing s with
  | zero => exact BitVec.eq_of_getLsbD_eq fun i _ => (hn i (Nat.zero_le i)).trans BitVec.getLsbD_zero.symm
  | succ n ih =>
    have hstep : step p s (s.getLsbD 0) = s >>> 1 := by rw [step, Bool.xor_self, if_neg Bool.false_ne_true]
    have hshift (i : Nat) : (s >>> 1).getLsbD i = s.getLsbD (i + 1) := by rw [BitVec.getLsbD_ushiftRight, Nat.add_comm]
    have hrest : (List.range n).map (s.getLsbD ∘ Nat.succ) = (List.range n).map (s >>> 1).getLsbD :=
      List.map_congr_left fun i _ => (hshift i).symm
    rw [List.range_succ_eq_map, List.map_cons, List.map_map, feed_cons, hstep, hrest]
    exact ih (s >>> 1) fun i hi => (hshift i).trans (hn (i + 1) (Nat.succ_le_succ hi))

/-- Of `w` bits, only those. -/
theorem feed_eq_zero_iff (hp : p.msb = true) (s c : BitVec w) : feed p s ((List.range w).map c.getLsbD) = 0 ↔ s = c := by
  constructor
  · intro h
    refine BitVec.eq_of_getLsbD_eq fun i hi => ?_
    rw [getLsbD_of_feed_eq_zero hp (by simp) h i]
    simp [List.getD_eq_getElem?_getD, hi]
  · rintro rfl
    exact feed_self s fun i hi => BitVec.getLsbD_of_ge s i hi

theorem eq_replicate_false {l : List Bool} (h : ∀ i : Nat, l[i]? ≠ some true) : l = List.replicate l.length false := by
  refine List.eq_replicate_iff.mpr ⟨rfl, fun b hb => ?_⟩
  obtain ⟨i, hi, rfl⟩ := List.getElem_of_mem hb
  have hne := h i
  rw [List.getElem?_eq_getElem hi] at hne
  cases hl : l[i] with
  | false => rfl
  | true => exact absurd (congrArg some hl) hne

/-- **A burst of at most `w` bits is seen**: errors at places `k` to `k + w - 1` only. -/
theorem feed_burst_ne_zero (hp : p.msb = true) {bits : List Bool} (hne : true ∈ bits) {k : Nat}
    (hburst : ∀ i, bits[i]? = some true → k ≤ i ∧ i < k + w) : feed p 0 bits ≠ 0 := by
  intro h
  have hsplit : bits = bits.take k ++ ((bits.drop k).take w ++ (bits.drop k).drop w) := by
    rw [List.take_append_drop, List.take_append_drop]
  have hbefore : bits.take k = List.replicate (bits.take k).length false := by
    refine eq_replicate_false fun i hi => ?_
    have hlt : i < k := by
      have := (List.getElem?_eq_some_iff.mp hi).1
      rw [List.length_take] at this
      omega
    rw [List.getElem?_take_of_lt hlt] at hi
    exact absurd (hburst i hi).1 (by omega)
  have hafter : (bits.drop k).drop w = List.replicate ((bits.drop k).drop w).length false := by
    refine eq_replicate_false fun i hi => ?_
    rw [List.drop_drop, List.getElem?_drop] at hi
    exact absurd (hburst _ hi).2 (by omega)
  rw [hsplit, feed_append, feed_append, hbefore, feed_zero_zeros, hafter, feed_zeros_eq_zero_iff hp] at h
  have hwindow (i : Nat) : ((bits.drop k).take w).getD i false = false := by
    rw [← getLsbD_of_feed_eq_zero hp (List.length_take_le _ _) h i]
    exact BitVec.getLsbD_zero
  have hzeros : (bits.drop k).take w = List.replicate ((bits.drop k).take w).length false := by
    refine eq_replicate_false fun i hi => ?_
    have hget := hwindow i
    rw [List.getD_eq_getElem?_getD, hi] at hget
    cases hget
  rw [hsplit, hbefore, hzeros, hafter] at hne
  simp at hne

/-! ## Odd errors -/

/-- The exclusive or of some bits. -/
def parity (l : List Bool) : Bool := l.foldr xor false

@[simp] theorem parity_nil : parity [] = false := rfl

@[simp] theorem parity_cons (b : Bool) (l : List Bool) : parity (b :: l) = (b ^^ parity l) := rfl

theorem parity_append (l l' : List Bool) : parity (l ++ l') = (parity l ^^ parity l') := by
  induction l with
  | nil => simp
  | cons b l ih => rw [List.cons_append, parity_cons, parity_cons, ih, Bool.xor_assoc]

theorem parity_map_xor {α : Type} (f g : α → Bool) (l : List α) :
    parity (l.map fun a => f a ^^ g a) = (parity (l.map f) ^^ parity (l.map g)) := by
  induction l with
  | nil => rfl
  | cons a l ih =>
    simp only [List.map_cons, parity_cons, ih]
    rw [Bool.xor_assoc, Bool.xor_assoc]
    congr 1
    rw [← Bool.xor_assoc, Bool.xor_comm (g a), Bool.xor_assoc]

theorem parity_eq_count (l : List Bool) : parity l = decide (l.count true % 2 = 1) := by
  induction l with
  | nil => rfl
  | cons b l ih =>
    rw [parity_cons, ih]
    cases b with
    | false => simp
    | true =>
      rw [List.count_cons_self]
      rcases Nat.mod_two_eq_zero_or_one (l.count true) with h | h
      · rw [h, show (l.count true + 1) % 2 = 1 by omega]
        rfl
      · rw [h, show (l.count true + 1) % 2 = 0 by omega]
        rfl

/-- The parity of a register. -/
def registerParity (s : BitVec w) : Bool := parity ((List.range w).map s.getLsbD)

theorem registerParity_xor (s s' : BitVec w) :
    registerParity (s ^^^ s') = (registerParity s ^^ registerParity s') := by
  unfold registerParity
  rw [← parity_map_xor]
  exact congrArg parity (List.map_congr_left fun i _ => BitVec.getLsbD_xor)

/-- A shift takes the lowest bit out of the parity. -/
theorem registerParity_shift (s : BitVec w) : registerParity (s >>> 1) = (registerParity s ^^ s.getLsbD 0) := by
  have hfirst : parity ((List.range (w + 1)).map s.getLsbD) = (s.getLsbD 0 ^^ registerParity (s >>> 1)) := by
    rw [List.range_succ_eq_map, List.map_cons, parity_cons, List.map_map, registerParity]
    congr 2
    refine List.map_congr_left fun i _ => ?_
    rw [BitVec.getLsbD_ushiftRight, Nat.add_comm]
    rfl
  have hlast : parity ((List.range (w + 1)).map s.getLsbD) = registerParity s := by
    rw [List.range_succ, List.map_append, parity_append, registerParity]
    simp
  rw [← hlast, hfirst]
  cases s.getLsbD 0 <;> simp

/-- With an odd polynomial, a step adds the incoming bit to the parity. -/
theorem registerParity_step (hp : registerParity p = true) (s : BitVec w) (b : Bool) :
    registerParity (step p s b) = (registerParity s ^^ b) := by
  by_cases hadd : (s.getLsbD 0 ^^ b) = true
  · have hb : b = (s.getLsbD 0 ^^ true) := by rw [← hadd, ← Bool.xor_assoc, Bool.xor_self, Bool.false_xor]
    rw [step, if_pos hadd, registerParity_xor, registerParity_shift, hp, Bool.xor_assoc, ← hb]
  · have hb : s.getLsbD 0 = b := by simpa using hadd
    rw [step, if_neg hadd, registerParity_shift, hb]

theorem registerParity_feed (hp : registerParity p = true) (s : BitVec w) (bits : List Bool) :
    registerParity (feed p s bits) = (registerParity s ^^ parity bits) := by
  induction bits generalizing s with
  | nil => simp
  | cons b bits ih => rw [feed_cons, ih, registerParity_step hp, parity_cons, Bool.xor_assoc]

theorem registerParity_zero : registerParity (0 : BitVec w) = false := by
  have hself := registerParity_xor (0 : BitVec w) 0
  rwa [show (0 : BitVec w) = 0#w from rfl, BitVec.xor_self, Bool.xor_self] at hself

/-- **An odd number of errors is seen.** -/
theorem feed_odd_ne_zero (hp : registerParity p = true) {bits : List Bool} (hodd : bits.count true % 2 = 1) :
    feed p 0 bits ≠ 0 := by
  intro h
  have hparity := registerParity_feed hp 0 bits
  rw [h, registerParity_zero, parity_eq_count, hodd] at hparity
  cases hparity

/-! ## Two errors -/

/-- A message with an error starts with zeros and the first one. -/
theorem exists_first {l : List Bool} {n : Nat} (h : l.count true = n + 1) :
    ∃ a rest, l = List.replicate a false ++ true :: rest ∧ rest.count true = n := by
  induction l with
  | nil => cases h
  | cons b l ih =>
    cases b with
    | true =>
      rw [List.count_cons_self] at h
      exact ⟨0, l, rfl, Nat.succ.inj h⟩
    | false =>
      rw [List.count_cons_of_ne (by decide)] at h
      obtain ⟨a, rest, rfl, hrest⟩ := ih h
      exact ⟨a + 1, rest, rfl, hrest⟩

theorem eq_replicate_of_count {l : List Bool} (h : l.count true = 0) : l = List.replicate l.length false := by
  refine List.eq_replicate_iff.mpr ⟨rfl, fun b hb => ?_⟩
  cases b with
  | false => rfl
  | true => exact absurd hb (List.count_eq_zero.mp h)

theorem step_true (s : BitVec w) : step p s true = step p s false ^^^ p := by
  unfold step
  cases s.getLsbD 0 with
  | false => rfl
  | true =>
    show s >>> 1 = (s >>> 1) ^^^ p ^^^ p
    rw [BitVec.xor_assoc, BitVec.xor_self, BitVec.xor_zero]

/-- **Two errors are seen** when the register does not come back to the
polynomial within the length of the message. -/
theorem feed_two_ne_zero (hp : p.msb = true) {bits : List Bool} (htwo : bits.count true = 2)
    (hperiod : ∀ d, 1 ≤ d → d < bits.length → feed p p (List.replicate d false) ≠ p) : feed p 0 bits ≠ 0 := by
  obtain ⟨a, rest, rfl, hrest⟩ := exists_first htwo
  obtain ⟨b, tail, rfl, htail⟩ := exists_first hrest
  refine fun h => hperiod (b + 1) (Nat.succ_pos b) (by simp; omega) ?_
  have hfirst : step p 0 true = p := by
    rw [step_true, step_zero]
    exact BitVec.zero_xor
  rw [eq_replicate_of_count htail, feed_append, feed_zero_zeros, feed_cons, hfirst, feed_append, feed_cons,
    feed_zeros_eq_zero_iff hp, step_true, show (0 : BitVec w) = 0#w from rfl, BitVec.xor_eq_zero_iff] at h
  rw [List.replicate_succ', feed_append, feed_cons, feed_nil]
  exact h

/-- Whether `n` zeros never bring the register from `s` to the polynomial. -/
def neverBack (p : BitVec w) : Nat → BitVec w → Bool
  | 0, _ => true
  | n + 1, s => step p s false != p && neverBack p n (step p s false)

theorem feed_ne_of_neverBack {n : Nat} {s : BitVec w} (h : neverBack p n s = true) {d : Nat} (hpos : 1 ≤ d)
    (hd : d ≤ n) : feed p s (List.replicate d false) ≠ p := by
  induction n generalizing s d with
  | zero => omega
  | succ n ih =>
    rw [neverBack, Bool.and_eq_true, bne_iff_ne] at h
    obtain ⟨d, rfl⟩ : ∃ e, d = e + 1 := ⟨d - 1, by omega⟩
    rw [List.replicate_succ, feed_cons]
    cases d with
    | zero => exact h.1
    | succ d => exact ih h.2 (Nat.succ_pos d) (by omega)

end Embed.Lfsr
