/-
A bounded queue that overwrites its oldest element: at most `cap` elements,
oldest first. `push` appends and drops the oldest element if there is then
one too many; `dropOldest` removes from the old end.
-/
import Mathlib.Data.List.Basic

namespace Embed

/-- A queue of at most `cap` elements, oldest first. -/
structure Fifo (α : Type) (cap : Nat) where
  items : List α
  bounded : items.length ≤ cap

namespace Fifo

variable {α : Type} {cap : Nat}

def empty : Fifo α cap := ⟨[], Nat.zero_le _⟩

def push (q : Fifo α cap) (a : α) : Fifo α cap where
  items := (q.items ++ [a]).drop (q.items.length + 1 - cap)
  bounded := by simp; omega

/-- Drops the `nb` oldest elements; with fewer than `nb` elements, nothing. -/
def dropOldest (q : Fifo α cap) (nb : Nat) : Fifo α cap where
  items := if nb ≤ q.items.length then q.items.drop nb else q.items
  bounded := by
    have := q.bounded
    split
    · simp; omega
    · exact this

theorem push_items (q : Fifo α cap) (a : α) (h : q.items.length < cap) : (q.push a).items = q.items ++ [a] := by
  simp [push, show q.items.length + 1 - cap = 0 by omega]

end Fifo

end Embed
