/-
Programs that log what they do. A `Traced ε α` is a value and the list of
events (buffer accesses, output, device calls) its computation makes, in
program order: Mathlib's `Writer` over lists, with the two projections and
the equations by which a proof runs such a program.
-/
import Mathlib.Control.Monad.Writer

namespace Embed

/-- A computation that returns an `α` and logs events `ε`. -/
abbrev Traced (ε : Type) := Writer (List ε)

namespace Traced

variable {ε ε' α β : Type}

/-- What a run returns. -/
def val (x : Traced ε α) : α := x.run.1

/-- The events of a run, in order. -/
def log (x : Traced ε α) : List ε := x.run.2

/-- The same run with every event renamed. -/
def mapLog (f : ε → ε') (x : Traced ε α) : Traced ε' α := WriterT.mk (x.val, x.log.map f)

@[simp] theorem val_pure (a : α) : val (pure a : Traced ε α) = a := rfl
@[simp] theorem log_pure (a : α) : log (pure a : Traced ε α) = [] := rfl

@[simp] theorem val_bind (x : Traced ε α) (f : α → Traced ε β) : val (x >>= f) = val (f (val x)) := rfl
@[simp] theorem log_bind (x : Traced ε α) (f : α → Traced ε β) :
    log (x >>= f) = log x ++ log (f (val x)) := rfl

@[simp] theorem val_map (f : α → β) (x : Traced ε α) : val (f <$> x) = f (val x) := rfl
@[simp] theorem log_map (f : α → β) (x : Traced ε α) : log (f <$> x) = log x := rfl

@[simp] theorem val_tell (l : List ε) : val (tell l : Traced ε PUnit) = ⟨⟩ := rfl
@[simp] theorem log_tell (l : List ε) : log (tell l : Traced ε PUnit) = l := rfl

@[simp] theorem val_mapLog (f : ε → ε') (x : Traced ε α) : val (mapLog f x) = val x := rfl
@[simp] theorem log_mapLog (f : ε → ε') (x : Traced ε α) : log (mapLog f x) = (log x).map f := rfl

@[simp] theorem val_ite (c : Prop) [Decidable c] (x y : Traced ε α) :
    val (if c then x else y) = if c then val x else val y := by
  split <;> rfl

@[simp] theorem log_ite (c : Prop) [Decidable c] (x y : Traced ε α) :
    log (if c then x else y) = if c then log x else log y := by
  split <;> rfl

end Traced

/-- One thing a C program does that can be undefined: an array element read
or written, or a remainder taken. `β` names the arrays. -/
inductive Access (β : Type) where
  | read (b : β) (i : Nat)
  | write (b : β) (i : Nat)
  /-- A remainder by `d`, undefined for `d = 0`. -/
  | rem (d : Nat)
  deriving DecidableEq, Repr

namespace Access

/-- The access is defined in C when array `b` has `len b` elements. -/
def Defined {β : Type} (len : β → Nat) : Access β → Prop
  | .read b i => i < len b
  | .write b i => i < len b
  | .rem d => d ≠ 0

instance {β : Type} (len : β → Nat) : ∀ a : Access β, Decidable (a.Defined len)
  | .read _ _ => inferInstanceAs (Decidable (_ < _))
  | .write _ _ => inferInstanceAs (Decidable (_ < _))
  | .rem _ => inferInstanceAs (Decidable (_ ≠ _))

variable {β : Type} [DecidableEq β]

/-- The indices of `b` a log reads, in order. -/
def reads (b : β) (l : List (Access β)) : List Nat :=
  l.filterMap fun | .read b' i => if b' = b then some i else none | _ => none

/-- The indices of `b` a log writes, in order. -/
def writes (b : β) (l : List (Access β)) : List Nat :=
  l.filterMap fun | .write b' i => if b' = b then some i else none | _ => none

@[simp] theorem reads_nil (b : β) : reads b [] = [] := rfl
@[simp] theorem writes_nil (b : β) : writes b [] = [] := rfl

@[simp] theorem reads_cons_read (b b' : β) (i : Nat) (l : List (Access β)) :
    reads b (.read b' i :: l) = if b' = b then i :: reads b l else reads b l := by
  by_cases h : b' = b <;> simp [reads, h]

@[simp] theorem reads_cons_write (b b' : β) (i : Nat) (l : List (Access β)) :
    reads b (.write b' i :: l) = reads b l := rfl

@[simp] theorem writes_cons_write (b b' : β) (i : Nat) (l : List (Access β)) :
    writes b (.write b' i :: l) = if b' = b then i :: writes b l else writes b l := by
  by_cases h : b' = b <;> simp [writes, h]

@[simp] theorem writes_cons_read (b b' : β) (i : Nat) (l : List (Access β)) :
    writes b (.read b' i :: l) = writes b l := rfl

@[simp] theorem reads_append (b : β) (l l' : List (Access β)) : reads b (l ++ l') = reads b l ++ reads b l' :=
  List.filterMap_append

@[simp] theorem writes_append (b : β) (l l' : List (Access β)) :
    writes b (l ++ l') = writes b l ++ writes b l' :=
  List.filterMap_append

@[simp] theorem reads_map_read (b b' : β) (l : List Nat) :
    reads b (l.map (.read b')) = if b' = b then l else [] := by
  induction l with
  | nil => simp
  | cons i l ih => rw [List.map_cons, reads_cons_read, ih]; split <;> rfl

@[simp] theorem writes_map_write (b b' : β) (l : List Nat) :
    writes b (l.map (.write b')) = if b' = b then l else [] := by
  induction l with
  | nil => simp
  | cons i l ih => rw [List.map_cons, writes_cons_write, ih]; split <;> rfl

@[simp] theorem reads_map_write (b b' : β) (l : List Nat) : reads b (l.map (.write b')) = [] := by
  simp [reads, List.filterMap_map]

@[simp] theorem writes_map_read (b b' : β) (l : List Nat) : writes b (l.map (.read b')) = [] := by
  simp [writes, List.filterMap_map]

end Access

end Embed
