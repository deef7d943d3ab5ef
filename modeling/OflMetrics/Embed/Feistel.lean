/-
Feistel ciphers over two halves of a block. In a cycle each half takes its
turn: it is added a function of the other half and of its round key.

The function is any, invertible or not. A cycle is undone from its second half
turn back, each time by the half that the turn left alone (`uncycle_cycle`,
`cycle_uncycle`), so any number of cycles is (`decipher_encipher`,
`encipher_decipher`), with the keys taken from the last to the first.
-/
import Mathlib.Algebra.Group.Basic

namespace Embed.Feistel

variable {β κ : Type} [AddGroup β] (f : κ → β → β)

/-- A cycle: the first half, then the second. -/
def cycle (k : κ × κ) (b : β × β) : β × β :=
  let y := b.1 + f k.1 b.2
  (y, b.2 + f k.2 y)

/-- A cycle backwards: the second half, then the first. -/
def uncycle (k : κ × κ) (b : β × β) : β × β :=
  let z := b.2 - f k.2 b.1
  (b.1 - f k.1 z, z)

theorem uncycle_cycle (k : κ × κ) (b : β × β) : uncycle f k (cycle f k b) = b := by
  simp only [uncycle, cycle, add_sub_cancel_right]

theorem cycle_uncycle (k : κ × κ) (b : β × β) : cycle f k (uncycle f k b) = b := by
  simp only [uncycle, cycle, sub_add_cancel]

/-- The cycles of a schedule of round keys. -/
def encipher (ks : List (κ × κ)) (b : β × β) : β × β := ks.foldl (fun b k => cycle f k b) b

/-- Its cycles backwards. -/
def decipher (ks : List (κ × κ)) (b : β × β) : β × β := ks.foldr (uncycle f) b

theorem decipher_encipher (ks : List (κ × κ)) (b : β × β) : decipher f ks (encipher f ks b) = b := by
  induction ks generalizing b with
  | nil => rfl
  | cons k ks ih =>
    have hrest : decipher f ks (encipher f ks (cycle f k b)) = cycle f k b := ih _
    show uncycle f k (decipher f ks (encipher f ks (cycle f k b))) = b
    rw [hrest, uncycle_cycle]

theorem encipher_decipher (ks : List (κ × κ)) (b : β × β) : encipher f ks (decipher f ks b) = b := by
  induction ks with
  | nil => rfl
  | cons k ks ih =>
    show encipher f ks (cycle f k (uncycle f k (decipher f ks b))) = b
    rw [cycle_uncycle, ih]

end Embed.Feistel
