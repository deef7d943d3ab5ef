/-
What the ring touches, over every sequence of calls.

`head` runs from 0 to `size`, both included, so a ring of the size of its
array is pushed into `buf[1024]` after a full turn, and a ring of size 0 takes
the remainder by 0 at its first push. Every size between is in bounds for ever
(`RingBounded`), and so is every run up to such a push (`ring_bounds_iff`).
-/
import OflMetrics.RingFifo

namespace OflMetrics

open Embed Embed.Traced

/-- A call of the ring by its user. -/
inductive RingCall where
  | push (pVal : Int16)
  | get (pPos : UInt16)
  | removeTail (nb : UInt16)
  | reset
  deriving DecidableEq, Repr

/-- What a call does to the ring, and its log. -/
def ringCall (ring : RingBufS) : RingCall → Ring RingBufS
  | .push v => ringPush ring v
  | .get pPos => do
    let _ ← ringGet ring pPos
    return ring
  | .removeTail nb => ringRemoveTail ring nb
  | .reset => return ringReset ring

def ringNext (ring : RingBufS) (call : RingCall) : RingBufS := val (ringCall ring call)

/-- The accesses of a sequence of calls. -/
def ringAccesses : RingBufS → List RingCall → List (Access RingBuf)
  | _, [] => []
  | ring, call :: calls => log (ringCall ring call) ++ ringAccesses (ringNext ring call) calls

/-- An access inside `buf`, or a remainder that is not by zero. -/
abbrev InBuf (a : Access RingBuf) : Prop := a.Defined fun _ => BUFSZ

/-- The run stays in the array, takes no remainder by zero and never counts
more elements than the ring's size. -/
def RingInBounds (ring : RingBufS) (calls : List RingCall) : Prop :=
  (∀ a ∈ ringAccesses ring calls, InBuf a) ∧
    ∀ pre, pre <+: calls → (run ringNext ring pre).count ≤ (run ringNext ring pre).size

/-- A push has an element to write to and a size to wrap at. -/
def RingCall.Fits (ring : RingBufS) : RingCall → Prop
  | .push _ => ring.size ≠ 0 ∧ ring.head.toNat < BUFSZ
  | _ => True

instance (ring : RingBufS) : ∀ call : RingCall, Decidable (call.Fits ring)
  | .push _ => inferInstanceAs (Decidable (_ ∧ _))
  | .get _ => .isTrue trivial
  | .removeTail _ => .isTrue trivial
  | .reset => .isTrue trivial

variable {ring : RingBufS}

/-! ## What one call does and touches -/

theorem ringPush_val (ring : RingBufS) (v : Int16) :
    val (ringPush ring v) =
      if ring.count < ring.size then
        { ring with
          buf := Function.update ring.buf ring.head.toNat v
          head := ring.head % ring.size + 1
          count := ring.count + 1 }
      else
        { ring with
          buf := Function.update ring.buf ring.head.toNat v
          head := ring.head % ring.size + 1
          tail := ring.tail % ring.size + 1 } := by
  simp only [ringPush, moduloInc, val_bind, val_ite, val_pure, Mem.val_setT]

theorem mem_log_ringPush {v : Int16} {a : Access RingBuf} :
    a ∈ log (ringPush ring v) ↔ a = .write .buf ring.head.toNat ∨ a = .rem ring.size.toNat := by
  simp only [ringPush, moduloInc, log_bind, log_ite, log_pure, log_tell, val_bind, val_pure, Mem.log_setT]
  split <;> simp

theorem mem_log_ringGet {pPos : UInt16} {a : Access RingBuf} :
    a ∈ log (ringGet ring pPos) ↔ pPos < ring.count ∧
      (a = .rem ring.size.toNat ∨ a = .read .buf ((ring.tail.toNat + pPos.toNat) % ring.size.toNat)) := by
  simp only [ringGet, log_ite]
  split
  · next h => simp [h]
  · next h => simp [h]

theorem mem_log_ringRemoveTail {nb : UInt16} {a : Access RingBuf} :
    a ∈ log (ringRemoveTail ring nb) ↔ nb < ring.count ∧ a = .rem ring.size.toNat := by
  simp only [ringRemoveTail, log_ite]
  split
  · next h => simp [h]
  · next h => simp [h]

@[simp] theorem ringNext_size (ring : RingBufS) (call : RingCall) : (ringNext ring call).size = ring.size := by
  cases call with
  | push v =>
    simp only [ringNext, ringCall, ringPush_val]
    split <;> rfl
  | get pPos => rfl
  | removeTail nb =>
    simp only [ringNext, ringCall, ringRemoveTail, val_ite]
    split <;> rfl
  | reset => rfl

/-- The count is within the size and the size within the array: what every
call keeps, in bounds or not. -/
structure RingCounted (ring : RingBufS) : Prop where
  size : ring.size.toNat ≤ BUFSZ
  count : ring.count.toNat ≤ ring.size.toNat

theorem RingCounted.next (h : RingCounted ring) (call : RingCall) : RingCounted (ringNext ring call) := by
  refine ⟨by rw [ringNext_size]; exact h.size, ?_⟩
  rw [ringNext_size]
  have hsize := h.size
  have hcount := h.count
  cases call with
  | push v =>
    simp only [ringNext, ringCall, ringPush_val]
    split
    · next hlt =>
      rw [UInt16.lt_iff_toNat_lt] at hlt
      simp only [BUFSZ] at hsize
      show (ring.count + 1).toNat ≤ ring.size.toNat
      rw [UInt16.toNat_add]
      exact Nat.le_trans (Nat.mod_le _ _) hlt
    · exact hcount
  | get pPos => exact hcount
  | removeTail nb =>
    simp only [ringNext, ringCall, ringRemoveTail, val_ite]
    split
    · next hlt =>
      rw [UInt16.lt_iff_toNat_lt] at hlt
      show (ring.count - nb).toNat ≤ ring.size.toNat
      rw [UInt16.toNat_sub_of_le _ _ (UInt16.le_iff_toNat_le.mpr (Nat.le_of_lt hlt))]
      omega
    · exact hcount
  | reset => exact Nat.zero_le _

/-- An element that is counted lies inside the array. -/
theorem RingCounted.index_lt (h : RingCounted ring) {pos : UInt16} (hpos : pos < ring.count) (i : Nat) :
    ring.size.toNat ≠ 0 ∧ i % ring.size.toNat < BUFSZ := by
  rw [UInt16.lt_iff_toNat_lt] at hpos
  have hsize : 0 < ring.size.toNat := by
    have := h.count
    omega
  exact ⟨Nat.ne_of_gt hsize, Nat.lt_of_lt_of_le (Nat.mod_lt i hsize) h.size⟩

/-- One call is in bounds unless it is a push at `head = 1024` or at size 0. -/
theorem RingCounted.inBuf_iff (h : RingCounted ring) (call : RingCall) :
    (∀ a ∈ log (ringCall ring call), InBuf a) ↔ call.Fits ring := by
  cases call with
  | push v =>
    constructor
    · intro hall
      have hwrite : InBuf (.write .buf ring.head.toNat) := hall _ (mem_log_ringPush.mpr (.inl rfl))
      have hrem : InBuf (.rem ring.size.toNat) := hall _ (mem_log_ringPush.mpr (.inr rfl))
      exact ⟨fun he => hrem (by rw [he]; rfl), hwrite⟩
    · intro hfits a ha
      cases mem_log_ringPush.mp ha with
      | inl he => rw [he]; exact hfits.2
      | inr he => rw [he]; exact fun hz => hfits.1 (UInt16.toNat_inj.mp hz)
  | get pPos =>
    refine iff_of_true (fun a ha => ?_) trivial
    have ha : a ∈ log (ringGet ring pPos) := by simpa [ringCall] using ha
    obtain ⟨hlt, he⟩ := mem_log_ringGet.mp ha
    obtain ⟨hsize, hindex⟩ := h.index_lt hlt (ring.tail.toNat + pPos.toNat)
    cases he with
    | inl he => rw [he]; exact hsize
    | inr he => rw [he]; exact hindex
  | removeTail nb =>
    refine iff_of_true (fun a ha => ?_) trivial
    obtain ⟨hlt, he⟩ := mem_log_ringRemoveTail.mp ha
    rw [he]
    exact (h.index_lt hlt 0).1
  | reset => exact iff_of_true (fun a ha => absurd ha List.not_mem_nil) trivial

/-! ## Runs -/

theorem RingCounted.accesses_iff (h : RingCounted ring) (calls : List RingCall) :
    (∀ a ∈ ringAccesses ring calls, InBuf a) ↔ Guarded ringNext (fun r call => call.Fits r) ring calls := by
  induction calls generalizing ring with
  | nil => exact iff_of_true (fun a ha => absurd ha List.not_mem_nil) trivial
  | cons call calls ih =>
    simp only [ringAccesses, List.mem_append, or_imp, forall_and, Guarded]
    rw [h.inBuf_iff call, ih (h.next call)]

theorem RingCounted.inBounds_iff (h : RingCounted ring) (calls : List RingCall) :
    RingInBounds ring calls ↔ Guarded ringNext (fun r call => call.Fits r) ring calls := by
  rw [RingInBounds, h.accesses_iff]
  refine and_iff_left fun pre _ => ?_
  have hrun : RingCounted (run ringNext ring pre) := run_invariant (fun r call hr => hr.next call) h
  exact UInt16.le_iff_toNat_le.mpr hrun.count

/-- Where the fields of a ring of size 1 to 1023 can be. -/
structure RingBounded (ring : RingBufS) : Prop where
  counted : RingCounted ring
  size : 0 < ring.size.toNat ∧ ring.size.toNat < BUFSZ
  head : ring.head.toNat ≤ ring.size.toNat
  tail : ring.tail.toNat ≤ ring.size.toNat

/-- `MODULO_INC` counts between 1 and the size. -/
theorem toNat_moduloInc {x y : UInt16} (hpos : 0 < y.toNat) (hlt : y.toNat < BUFSZ) :
    (x % y + 1).toNat = x.toNat % y.toNat + 1 := by
  have hmod := Nat.mod_lt x.toNat hpos
  simp only [BUFSZ] at hlt
  rw [UInt16.toNat_add, UInt16.toNat_mod]
  exact Nat.mod_eq_of_lt (show x.toNat % y.toNat + 1 < 2 ^ 16 by omega)

theorem moduloInc_le {x y : UInt16} (hpos : 0 < y.toNat) (hlt : y.toNat < BUFSZ) :
    (x % y + 1).toNat ≤ y.toNat := by
  rw [toNat_moduloInc hpos hlt]
  exact Nat.mod_lt x.toNat hpos

theorem RingBounded.next (h : RingBounded ring) (call : RingCall) : RingBounded (ringNext ring call) := by
  obtain ⟨hcounted, ⟨hpos, hlt⟩, hhead, htail⟩ := h
  refine ⟨hcounted.next call, by rw [ringNext_size]; exact ⟨hpos, hlt⟩, ?_, ?_⟩
  · rw [ringNext_size]
    cases call with
    | push v =>
      simp only [ringNext, ringCall, ringPush_val]
      split <;> exact moduloInc_le hpos hlt
    | get pPos => exact hhead
    | removeTail nb =>
      simp only [ringNext, ringCall, ringRemoveTail, val_ite]
      split <;> exact hhead
    | reset => exact htail
  · rw [ringNext_size]
    cases call with
    | push v =>
      simp only [ringNext, ringCall, ringPush_val]
      split
      · exact htail
      · exact moduloInc_le hpos hlt
    | get pPos => exact htail
    | removeTail nb =>
      simp only [ringNext, ringCall, ringRemoveTail, val_ite]
      split
      · have hmod := Nat.mod_lt (ring.tail.toNat + nb.toNat) hpos
        show (UInt16.ofNat ((ring.tail.toNat + nb.toNat) % ring.size.toNat)).toNat ≤ ring.size.toNat
        rw [UInt16.toNat_ofNat_of_lt' (Nat.lt_trans hmod (UInt16.toNat_lt _))]
        exact Nat.le_of_lt hmod
      · exact htail
    | reset => exact htail

theorem RingBounded.fits (h : RingBounded ring) (call : RingCall) : call.Fits ring := by
  cases call with
  | push v =>
    refine ⟨fun he => ?_, Nat.lt_of_le_of_lt h.head h.size.2⟩
    have hpos := h.size.1
    rw [he] at hpos
    exact absurd hpos (Nat.lt_irrefl 0)
  | get pPos => trivial
  | removeTail nb => trivial
  | reset => trivial

theorem RingBounded.guarded (h : RingBounded ring) (calls : List RingCall) :
    Guarded ringNext (fun r call => call.Fits r) ring calls := by
  induction calls generalizing ring with
  | nil => trivial
  | cons call calls ih => exact ⟨h.fits call, ih (h.next call)⟩

/-! ## The sizes at both ends -/

theorem ringInit_counted (ring : RingBufS) {ringSz : UInt16} (hret : (ringInit ring ringSz).1 = 1) :
    ringSz.toNat ≤ BUFSZ ∧ (ringInit ring ringSz).2.size = ringSz ∧ (ringInit ring ringSz).2.head = 0 ∧
      (ringInit ring ringSz).2.tail = 0 ∧ (ringInit ring ringSz).2.count = 0 := by
  by_cases hle : ringSz.toNat ≤ BUFSZ
  · refine ⟨hle, ?_, ?_, ?_, ?_⟩ <;> simp only [ringInit, if_pos hle]
  · simp [ringInit, hle] at hret

/-- A ring as large as its array, pushed from the start: `head` is the number of pushes. -/
theorem head_pushes (hsize : ring.size.toNat = BUFSZ) (hhead : ring.head = 0) (v : Int16) :
    ∀ n ≤ BUFSZ, (run ringNext ring (List.replicate n (.push v))).head.toNat = n
  | 0, _ => by rw [List.replicate_zero, run_nil, hhead]; rfl
  | n + 1, hn => by
    have ih := head_pushes hsize hhead v n (by omega)
    have hrun : (run ringNext ring (List.replicate n (.push v))).size = ring.size :=
      run_invariant (I := fun r => r.size = ring.size) (fun r call hr => (ringNext_size r call).trans hr) rfl
    rw [List.replicate_succ', run_append, run_cons, run_nil]
    generalize run ringNext ring (List.replicate n (.push v)) = r at ih hrun
    have hmod : (r.head % r.size + 1).toNat = n + 1 := by
      rw [UInt16.toNat_add, UInt16.toNat_mod, ih, hrun, hsize, Nat.mod_eq_of_lt hn]
      simp only [BUFSZ] at hn
      exact Nat.mod_eq_of_lt (show n + 1 < 2 ^ 16 by omega)
    simp only [ringNext, ringCall, ringPush_val]
    split <;> exact hmod

/-- A push after a full turn of a ring as large as its array writes behind it. -/
theorem not_inBounds_full (hc : RingCounted ring) (hsize : ring.size.toNat = BUFSZ) (hhead : ring.head = 0)
    (v : Int16) : ¬ RingInBounds ring (List.replicate (BUFSZ + 1) (.push v)) := by
  rw [hc.inBounds_iff, List.replicate_succ', Guarded.append]
  intro hguard
  have hfits := hguard.2.1.2
  rw [head_pushes hsize hhead v BUFSZ (Nat.le_refl _)] at hfits
  exact absurd hfits (Nat.lt_irrefl _)

theorem not_inBounds_zero (hc : RingCounted ring) (hsize : ring.size = 0) (v : Int16) :
    ¬ RingInBounds ring [.push v] := by
  rw [hc.inBounds_iff]
  exact fun hguard => hguard.1.1 hsize

/-- **The ring's bounds**, for every size `ring_init` accepts: a run stays in
the array, without a remainder by zero, exactly if none of its pushes meets
`head = 1024` or size 0; and every run does exactly if the size is 1 to 1023. -/
theorem ring_bounds_iff (ring : RingBufS) (ringSz : UInt16) (hret : (ringInit ring ringSz).1 = 1) :
    (∀ calls, RingInBounds (ringInit ring ringSz).2 calls ↔
      Guarded ringNext (fun r call => call.Fits r) (ringInit ring ringSz).2 calls) ∧
    ((∀ calls, RingInBounds (ringInit ring ringSz).2 calls) ↔ 1 ≤ ringSz.toNat ∧ ringSz.toNat ≤ 1023) := by
  obtain ⟨hle, hsize, hhead, htail, hcount⟩ := ringInit_counted ring hret
  have hcounted : RingCounted (ringInit ring ringSz).2 :=
    ⟨by rw [hsize]; exact hle, by rw [hcount]; exact Nat.zero_le _⟩
  refine ⟨hcounted.inBounds_iff, ?_⟩
  constructor
  · intro hall
    have hzero : ringSz.toNat ≠ 0 := fun hz =>
      not_inBounds_zero hcounted (hsize.trans (UInt16.toNat_inj.mp hz)) 0 (hall _)
    have hfull : ringSz.toNat ≠ BUFSZ := fun hf =>
      not_inBounds_full hcounted (by rw [hsize]; exact hf) hhead 0 (hall _)
    simp only [BUFSZ] at hle hfull
    omega
  · intro hrange calls
    have hbounded : RingBounded (ringInit ring ringSz).2 := by
      refine ⟨hcounted, ?_, by rw [hhead]; exact Nat.zero_le _, by rw [htail]; exact Nat.zero_le _⟩
      rw [hsize, BUFSZ]
      omega
    exact (hcounted.inBounds_iff calls).mpr (hbounded.guarded calls)

theorem ring_bounds_two : RingInBounds (ringInit .zero 2).2 [.push 7, .push 8, .push 9, .get 1, .reset] :=
  (ring_bounds_iff .zero 2 rfl).2.mpr (by decide) _

/-- A ring of size 0 divides by zero at its first push, and one of size 1024
writes `buf[1024]` at its 1025th. -/
theorem ring_out_of_bounds :
    ((ringInit .zero 0).1 = 1 ∧ ¬ RingInBounds (ringInit .zero 0).2 [.push 7]) ∧
      ((ringInit .zero 1024).1 = 1 ∧ ¬ RingInBounds (ringInit .zero 1024).2 (List.replicate 1025 (.push 7))) :=
  ⟨⟨rfl, not_inBounds_zero ⟨by decide, by decide⟩ rfl 7⟩,
    ⟨rfl, not_inBounds_full ⟨by decide, by decide⟩ rfl rfl 7⟩⟩

end OflMetrics
