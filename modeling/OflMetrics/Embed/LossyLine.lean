/-
A line that loses messages, but neither doubles nor reorders them.

What was received and what is on its way, in this order, is a part of what was
sent (`ordered`, which each event keeps); where none is lost, it is all of it
(`run_all`).
-/
import Mathlib.Data.List.Basic
import OflMetrics.Embed.Run

namespace Embed

/-- What was sent, what is on its way of it, and what was received. -/
structure LossyLine (α : Type) where
  sent : List α
  onWay : List α
  received : List α
  ordered : (received ++ onWay).Sublist sent

/-- What happens on the line. -/
inductive LineEvent (α : Type) where
  | send (a : α)
  /-- The message with `k` before it is lost. -/
  | lose (k : Nat)
  | receive

variable {α : Type}

/-- The message sent. -/
def LineEvent.message : LineEvent α → List α
  | .send a => [a]
  | _ => []

/-- Nothing is lost. -/
def LineEvent.Keeps : LineEvent α → Prop
  | .lose _ => False
  | _ => True

namespace LossyLine

def empty : LossyLine α := ⟨[], [], [], .slnil⟩

def step (l : LossyLine α) : LineEvent α → LossyLine α
  | .send a =>
    { sent := l.sent ++ [a]
      onWay := l.onWay ++ [a]
      received := l.received
      ordered := by
        rw [← List.append_assoc]
        exact l.ordered.append_right [a] }
  | .lose k =>
    { l with
      onWay := l.onWay.eraseIdx k
      ordered := ((List.eraseIdx_sublist l.onWay k).append_left l.received).trans l.ordered }
  | .receive =>
    { l with
      onWay := l.onWay.drop 1
      received := l.received ++ l.onWay.take 1
      ordered := by
        rw [List.append_assoc, List.take_append_drop]
        exact l.ordered }

end LossyLine

end Embed
