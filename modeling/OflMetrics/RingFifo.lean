/-
The ring buffer against the queue it is meant to be.

`MODULO_INC` counts `1..size` while `ring_get` and `ring_remove_tail` index
modulo `size`, so the element pushed at `head = size` goes to `buf[size]`
and is looked for at `buf[0]`; and `ring_remove_tail` keeps the last element.
Up to the first such step the ring is the queue (`ring_refines_fifo`);
`ring_not_fifo` has a run beyond each.
-/
import OflMetrics.RingBuffer
import OflMetrics.Embed.Fifo
import OflMetrics.Embed.Run

namespace OflMetrics

open Embed Embed.Traced

inductive RingOp where
  | push (pVal : Int16)
  | removeTail (nb : UInt16)
  | reset
  deriving DecidableEq, Repr

/-- One call of the ring. -/
def ringStep (ring : RingBufS) : RingOp → RingBufS
  | .push v => val (ringPush ring v)
  | .removeTail nb => val (ringRemoveTail ring nb)
  | .reset => ringReset ring

/-- The same call of the queue. -/
def fifoStep {s : Nat} (q : Fifo Int16 s) : RingOp → Fifo Int16 s
  | .push v => q.push v
  | .removeTail nb => q.dropOldest nb.toNat
  | .reset => .empty

/-- The call is not one of the two the ring gets wrong: a push with `head` at
`size`, a removal of all elements of a non-empty ring. -/
def RingOp.Safe (ring : RingBufS) : RingOp → Prop
  | .push _ => ring.head ≠ ring.size
  | .removeTail nb => nb = ring.count → ring.count = 0
  | .reset => True

instance (ring : RingBufS) : ∀ op : RingOp, Decidable (op.Safe ring)
  | .push _ => inferInstanceAs (Decidable (_ ≠ _))
  | .removeTail _ => inferInstanceAs (Decidable (_ → _))
  | .reset => .isTrue trivial

/-- The ring holds the elements of `q` from `tail` on, without a wrap. -/
structure RingHolds {s : Nat} (ring : RingBufS) (q : Fifo Int16 s) : Prop where
  size : ring.size.toNat = s
  count : ring.count.toNat = q.items.length
  head : ring.head.toNat = ring.tail.toNat + ring.count.toNat
  bound : ring.head.toNat ≤ s
  items : ring.buf.slice ring.tail.toNat ring.count.toNat = q.items

variable {s : Nat} {ring : RingBufS} {q : Fifo Int16 s}

theorem ringInit_holds (ring : RingBufS) (ringSz : UInt16) (h : ringSz.toNat ≤ BUFSZ) :
    (ringInit ring ringSz).1 = 1 ∧ RingHolds (ringInit ring ringSz).2 (.empty : Fifo Int16 ringSz.toNat) := by
  simp only [ringInit, if_pos h]
  exact ⟨trivial, ⟨rfl, rfl, rfl, by simp, by simp [Fifo.empty]⟩⟩

theorem RingHolds.push (h : RingHolds ring q) (v : Int16) (hs : s ≤ BUFSZ) (hsafe : ring.head ≠ ring.size) :
    RingHolds (val (ringPush ring v)) (q.push v) := by
  obtain ⟨hsize, hcount, hhead, hbound, hitems⟩ := h
  have hlt : ring.head.toNat < s := by
    have : ring.head.toNat ≠ ring.size.toNat := fun he => hsafe (UInt16.toNat_inj.mp he)
    omega
  have hc : ring.count < ring.size := by rw [UInt16.lt_iff_toNat_lt]; omega
  have hval : val (ringPush ring v) =
      { buf := Function.update ring.buf ring.head.toNat v, head := ring.head % ring.size + 1, tail := ring.tail,
        count := ring.count + 1, size := ring.size } := by
    simp [ringPush, moduloInc, hc]
  have hheadmod : (ring.head % ring.size + 1).toNat = ring.head.toNat + 1 := by
    simp only [BUFSZ] at hs
    rw [UInt16.toNat_add, UInt16.toNat_mod, hsize, Nat.mod_eq_of_lt hlt]
    simp
    omega
  have hcount1 : (ring.count + 1).toNat = ring.count.toNat + 1 := by
    simp only [BUFSZ] at hs
    rw [UInt16.toNat_add]
    simp
    omega
  rw [hval]
  refine ⟨hsize, ?_, ?_, ?_, ?_⟩
  · rw [hcount1, Fifo.push_items q v (by omega), List.length_append, hcount]
    rfl
  · show (ring.head % ring.size + 1).toNat = ring.tail.toNat + (ring.count + 1).toNat
    rw [hheadmod, hcount1]
    omega
  · show (ring.head % ring.size + 1).toNat ≤ s
    rw [hheadmod]
    omega
  · show Mem.slice (Function.update ring.buf ring.head.toNat v) ring.tail.toNat (ring.count + 1).toNat = (q.push v).items
    rw [Fifo.push_items q v (by omega), hcount1, Mem.slice_add, Mem.slice_update_other (by omega), hitems, ← hhead]
    simp [Mem.slice]

theorem RingHolds.removeTail (h : RingHolds ring q) (nb : UInt16) (hs : s ≤ BUFSZ)
    (hsafe : nb = ring.count → ring.count = 0) : RingHolds (val (ringRemoveTail ring nb)) (q.dropOldest nb.toNat) := by
  by_cases hlt : nb < ring.count
  · obtain ⟨hsize, hcount, hhead, hbound, hitems⟩ := h
    have hnb : nb.toNat < ring.count.toNat := UInt16.lt_iff_toNat_lt.mp hlt
    have hmod : (ring.tail.toNat + nb.toNat) % ring.size.toNat = ring.tail.toNat + nb.toNat :=
      Nat.mod_eq_of_lt (by omega)
    have hval : val (ringRemoveTail ring nb) =
        { ring with tail := UInt16.ofNat (ring.tail.toNat + nb.toNat), count := ring.count - nb } := by
      simp [ringRemoveTail, hlt, hmod]
    have htail : (UInt16.ofNat (ring.tail.toNat + nb.toNat)).toNat = ring.tail.toNat + nb.toNat := by
      simp only [BUFSZ] at hs
      rw [UInt16.toNat_ofNat']
      omega
    have hsub : (ring.count - nb).toNat = ring.count.toNat - nb.toNat :=
      UInt16.toNat_sub_of_le _ _ (UInt16.le_iff_toNat_le.mpr (by omega))
    have hdrop : (q.dropOldest nb.toNat).items = q.items.drop nb.toNat := if_pos (by omega)
    rw [hval]
    refine ⟨hsize, ?_, ?_, hbound, ?_⟩
    · rw [hsub, hdrop, List.length_drop, hcount]
    · simp only [htail, hsub]
      omega
    · have hsplit : ring.count.toNat = nb.toNat + (ring.count.toNat - nb.toNat) := by omega
      rw [hdrop, ← hitems, htail, hsub]
      conv_rhs => rw [hsplit, Mem.slice_add]
      rw [List.drop_left' (by simp)]
  · -- The ring refuses, as the queue does: there are fewer elements, or none.
    have hge : ring.count.toNat ≤ nb.toNat := by
      rw [UInt16.lt_iff_toNat_lt] at hlt
      omega
    have hval : val (ringRemoveTail ring nb) = ring := by simp [ringRemoveTail, hlt]
    have hsame : q.dropOldest nb.toNat = q := by
      have hitems : (q.dropOldest nb.toNat).items = q.items := by
        simp only [Fifo.dropOldest]
        split
        · next hle =>
          have heq : nb = ring.count := UInt16.toNat_inj.mp (by have := h.count; omega)
          have hzero : ring.count.toNat = 0 := by rw [hsafe heq]; rfl
          have hnil : q.items = [] := List.length_eq_zero_iff.mp (h.count.symm.trans hzero)
          rw [hnil, List.drop_nil]
        · rfl
      cases q
      simpa [Fifo.dropOldest] using hitems
    rw [hval, hsame]
    exact h

theorem RingHolds.reset (h : RingHolds ring q) : RingHolds (ringReset ring) (.empty : Fifo Int16 s) := by
  have := h.head
  have := h.bound
  refine ⟨h.size, rfl, by simp [ringReset], ?_, by simp [ringReset, Fifo.empty]⟩
  simp only [ringReset]
  omega

theorem ringStep_holds (hs : s ≤ BUFSZ) (op : RingOp) (h : RingHolds ring q) (hsafe : op.Safe ring) :
    RingHolds (ringStep ring op) (fifoStep q op) := by
  cases op with
  | push v => exact h.push v hs hsafe
  | removeTail nb => exact h.removeTail nb hs hsafe
  | reset => exact h.reset

theorem RingHolds.get (h : RingHolds ring q) (hs : s ≤ BUFSZ) {i : Nat} (hi : i < q.items.length) :
    val (ringGet ring (UInt16.ofNat i)) = q.items[i] := by
  obtain ⟨hsize, hcount, hhead, hbound, hitems⟩ := h
  have hi16 : (UInt16.ofNat i).toNat = i := by
    simp only [BUFSZ] at hs
    rw [UInt16.toNat_ofNat']
    omega
  have hlt : UInt16.ofNat i < ring.count := by rw [UInt16.lt_iff_toNat_lt]; omega
  have hmod : (ring.tail.toNat + (UInt16.ofNat i).toNat) % ring.size.toNat = ring.tail.toNat + i := by
    rw [hi16]
    exact Nat.mod_eq_of_lt (by omega)
  simp only [ringGet, val_bind, Mem.val_getT, if_pos hlt, hmod]
  have hget := List.getElem_of_eq hitems (i := i) (by simp; omega)
  simpa using hget

theorem RingHolds.isempty (h : RingHolds ring q) : ringIsempty ring = q.items.isEmpty := by
  have hcount := h.count
  cases hq : q.items with
  | nil =>
    have hzero : ring.count = 0 := UInt16.toNat_inj.mp (by rw [hcount, hq]; rfl)
    rw [ringIsempty, hzero]
    rfl
  | cons v vs =>
    have hne : ring.count ≠ 0 := fun he => by
      rw [he, hq] at hcount
      cases hcount
    simp [ringIsempty, hne.symm]

/-- **The ring is a bounded queue** in every run of which no push meets
`head = size` and no removal takes the whole of a non-empty ring: after
every step its length and its elements, oldest first, are the queue's. -/
theorem ring_refines_fifo (ring : RingBufS) (ringSz : UInt16) (hle : ringSz.toNat ≤ 1024)
    (ops : List RingOp) (hsafe : Guarded ringStep (fun r op => op.Safe r) (ringInit ring ringSz).2 ops) :
    (ringInit ring ringSz).1 = 1 ∧ ∀ pre, pre <+: ops →
      let r := run ringStep (ringInit ring ringSz).2 pre
      let q := run fifoStep (.empty : Fifo Int16 ringSz.toNat) pre
      (ringLength r).toNat = q.items.length ∧ ringIsempty r = q.items.isEmpty ∧
        ∀ i (hi : i < q.items.length), val (ringGet r (UInt16.ofNat i)) = q.items[i] := by
  obtain ⟨hret, hinit⟩ := ringInit_holds ring ringSz hle
  refine ⟨hret, fun pre hpre => ?_⟩
  intro r q
  have hr : RingHolds r q :=
    Guarded.simulation (R := fun r q => RingHolds r q) (fun _ _ op h hok => ringStep_holds hle op h hok) hinit
      (hsafe.of_prefix hpre)
  exact ⟨hr.count, hr.isempty, fun i hi => hr.get hle hi⟩

/-- A ring before `ring_init`. -/
def RingBufS.zero : RingBufS := { buf := fun _ => 0, head := 0, tail := 0, count := 0, size := 0 }

theorem ring_refines_fifo_two :
    let r := run ringStep (ringInit .zero 2).2 [.push 7, .push 8, .removeTail 1]
    (ringLength r).toNat = 1 ∧ ringIsempty r = false ∧ val (ringGet r 0) = 8 := by
  obtain ⟨hlength, hisempty, hget⟩ :=
    (ring_refines_fifo .zero 2 (by decide) [.push 7, .push 8, .removeTail 1] (by decide)).2 _ List.prefix_rfl
  exact ⟨hlength, hisempty, hget 0 (by decide)⟩

/-- The third push into a ring of two is not the newest element read back, and
removing the one element of a ring leaves it there. -/
theorem ring_not_fifo :
    (let r := run ringStep (ringInit .zero 2).2 [.push 1, .push 2, .push 3]
     let q := run fifoStep (.empty : Fifo Int16 2) [.push 1, .push 2, .push 3]
     q.items = [2, 3] ∧ val (ringGet r 1) = 1) ∧
    (let r := run ringStep (ringInit .zero 2).2 [.push 1, .removeTail 1]
     let q := run fifoStep (.empty : Fifo Int16 2) [.push 1, .removeTail 1]
     q.items = [] ∧ ringLength r = 1) := by
  decide

end OflMetrics
