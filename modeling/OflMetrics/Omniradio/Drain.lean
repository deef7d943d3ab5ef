/-
Messages from the interrupt to the console: completions of `data_process`
and iterations of `main`'s drain loop, in any order.

`msg_cnt` is the slot the next message goes to and the bound of the loop that
prints and counts down, so with two messages pending the first is printed
twice and the second never (`messages_lost`). With at most one pending every
message is printed once and in order (`printed_eq_stored`).
-/
import OflMetrics.Omniradio.ReceiverFacts

namespace OflMetrics

open Embed Embed.Traced

/-- A message completes, decoded from a ring, or the drain loop takes a step. -/
inductive MessageStep where
  | complete (ring : RingBufS)
  | drain

/-- The firmware and the messages stored since the boot. -/
structure Messages where
  firmware : Omniradio
  stored : List (List Char)

def Messages.boot : Messages := { firmware := .boot, stored := [] }

/-- The messages printed since the boot. -/
def Messages.printed (t : Messages) : List (List Char) := t.firmware.out.map (·.2)

/-- `msg_cnt`. -/
def Messages.pending (t : Messages) : UInt16 := t.firmware.rx.msgCnt

def messageStep (t : Messages) : MessageStep → Messages
  | .complete ring =>
    { firmware := { t.firmware with rx := val (dataProcess { t.firmware.rx with ring }) }
      stored := t.stored ++ [ringText ring] }
  | .drain => { t with firmware := drainStep t.firmware }

theorem messageStep_complete (t : Messages) (ring : RingBufS) :
    messageStep t (.complete ring) =
      { firmware :=
          { t.firmware with
            rx :=
              { t.firmware.rx with
                ring
                msgBuf := storeMessage ring t.firmware.rx.msgCnt.toNat t.firmware.rx.msgBuf
                msgCnt := t.firmware.rx.msgCnt + 1 } }
        stored := t.stored ++ [ringText ring] } := by
  simp only [messageStep, dataProcess_val]

/-- No message completes while another waits. -/
def OnePending (t : Messages) : MessageStep → Prop
  | .complete _ => t.pending = 0
  | .drain => True

instance (t : Messages) : ∀ step, Decidable (OnePending t step)
  | .complete _ => inferInstanceAs (Decidable (_ = _))
  | .drain => .isTrue trivial

/-- At most one message waits, in slot 0, and it is the last one stored. -/
inductive DrainInv (t : Messages) : Prop where
  | drained (h : t.pending = 0) (hs : t.stored = t.printed)
  | one (h : t.pending = 1) (hs : t.stored = t.printed ++ [slotText t.firmware.rx.msgBuf 0])

variable {t : Messages}

theorem DrainInv.complete (h : DrainInv t) (hok : t.pending = 0) (ring : RingBufS) :
    DrainInv (messageStep t (.complete ring)) := by
  have hcnt : t.firmware.rx.msgCnt = 0 := hok
  have hstored : t.stored = t.printed := by
    cases h with
    | drained _ hs => exact hs
    | one h1 _ => exact absurd (hok.symm.trans h1) (by decide)
  rw [messageStep_complete]
  refine .one ?_ ?_
  · show t.firmware.rx.msgCnt + 1 = 1
    rw [hcnt]
    rfl
  · have hslot := slotText_storeMessage ring t.firmware.rx.msgBuf (show 0 < 10 by decide)
    simp only [Messages.printed, hstored, hcnt]
    exact congrArg (fun text => _ ++ [text]) hslot.symm

theorem DrainInv.drain (h : DrainInv t) : DrainInv (messageStep t .drain) := by
  have hstay : ∀ pc, DrainInv { t with firmware := { t.firmware with pc } } := by
    intro pc
    cases h with
    | drained h hs => exact .drained h hs
    | one h hs => exact .one h hs
  simp only [messageStep, drainStep]
  split
  · split
    · exact hstay _
    · cases h with
      | drained h hs => exact .drained h hs
      | one h hs => exact .one h hs
  · next j hj =>
    split
    · next hlt =>
      -- Only slot 0 can be below the count.
      cases h with
      | drained h _ =>
        have hcnt : t.firmware.rx.msgCnt = 0 := h
        rw [hcnt] at hlt
        exact absurd hlt (Nat.not_lt_zero j)
      | one h hs =>
        have hcnt : t.firmware.rx.msgCnt = 1 := h
        have hzero : j = 0 := by
          rw [hcnt] at hlt
          exact Nat.lt_one_iff.mp hlt
        subst hzero
        refine .drained ?_ ?_
        · show t.firmware.rx.msgCnt - 1 = 0
          rw [hcnt]
          rfl
        · rw [hs]
          simp [Messages.printed]
    · exact hstay _

/-- **Every message is printed once and in order** in every run in which no
message completes while another is pending. -/
theorem printed_eq_stored (steps : List MessageStep) (hok : Guarded messageStep OnePending .boot steps)
    (pre : List MessageStep) (hpre : pre <+: steps) (hdone : (run messageStep .boot pre).pending = 0) :
    (run messageStep .boot pre).printed = (run messageStep .boot pre).stored := by
  have hinv : DrainInv (run messageStep .boot pre) := by
    refine Guarded.invariant (fun t step h hstep => ?_) (.drained rfl rfl) (hok.of_prefix hpre)
    cases step with
    | complete ring => exact h.complete hstep ring
    | drain => exact h.drain
  cases hinv with
  | drained _ hs => exact hs.symm
  | one h _ => exact absurd (hdone.symm.trans h) (by decide)

/-- A ring of the two intervals of a 1. -/
def oneBitRing : RingBufS := val (ringPush (val (ringPush Receiver.boot.ring 275)) (-275))

/-- A message, and another one once the loop has printed it. -/
theorem printed_eq_stored_two :
    let steps := [.complete oneBitRing, .drain, .drain, .drain, .complete Receiver.boot.ring, .drain, .drain]
    (run messageStep .boot steps).printed = (run messageStep .boot steps).stored ∧
      (run messageStep .boot steps).stored = [ringText oneBitRing, ringText Receiver.boot.ring] := by
  intro steps
  have hok : Guarded messageStep OnePending .boot steps := by decide +kernel
  exact ⟨printed_eq_stored steps hok steps List.prefix_rfl (by decide +kernel), by decide +kernel⟩

/-- Two messages complete before the loop runs: the first is printed twice. -/
theorem messages_lost :
    let t := run messageStep .boot
      [.complete Receiver.boot.ring, .complete oneBitRing, .drain, .drain, .drain, .drain, .drain]
    t.pending = 0 ∧ t.stored = [ringText Receiver.boot.ring, ringText oneBitRing] ∧
      t.printed = [ringText Receiver.boot.ring, ringText Receiver.boot.ring] ∧ t.printed ≠ t.stored := by
  decide +kernel

end OflMetrics
