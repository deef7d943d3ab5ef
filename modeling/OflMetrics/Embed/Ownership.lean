/-
Buffers that are taken from a pool and have to go back to it.

`held` follows the buffer in hand through a run; `Returned` says that at every
moment at most one is, that only it is used or handed back, and that none is
left at the end. So the run is one buffer after the other: taken, used some
times, handed back (`returned_iff`).

The programs here log such acts beside events of their own. `Erases` says that
one is another with the acts left out.
-/
import OflMetrics.Embed.Run
import OflMetrics.Embed.Traced

namespace Embed.Ownership

open Traced

/-- What is done with a buffer. -/
inductive Act (β : Type) where
  | take (b : β)
  | use (b : β)
  | giveBack (b : β)

variable {β : Type}

/-- The buffer in hand after an act. -/
def held (h : Option β) : Act β → Option β
  | .take b => some b
  | .use _ => h
  | .giveBack _ => none

/-- One is taken with empty hands; only the one in hand is used and handed back. -/
def Allowed (h : Option β) : Act β → Prop
  | .take _ => h = none
  | .use b => h = some b
  | .giveBack b => h = some b

/-- Every act is allowed, and the hands are empty at the end. -/
def Returned (acts : List (Act β)) : Prop := Guarded held Allowed none acts ∧ run held none acts = none

/-! ## One buffer after the other -/

/-- A buffer taken, used so many times, and handed back. -/
def episode (e : β × Nat) : List (Act β) := .take e.1 :: (List.replicate e.2 (.use e.1) ++ [.giveBack e.1])

theorem Returned.nil : Returned ([] : List (Act β)) := ⟨trivial, rfl⟩

theorem Returned.append {acts acts' : List (Act β)} (h : Returned acts) (h' : Returned acts') :
    Returned (acts ++ acts') := by
  refine ⟨Guarded.append.mpr ⟨h.1, ?_⟩, ?_⟩
  · rw [h.2]
    exact h'.1
  · rw [run_append, h.2]
    exact h'.2

/-- A buffer in hand, used and handed back. -/
theorem guarded_uses (b : β) (n : Nat) :
    Guarded held Allowed (some b) (List.replicate n (.use b) ++ [.giveBack b]) ∧
      run held (some b) (List.replicate n (.use b) ++ [.giveBack b]) = none := by
  induction n with
  | zero => exact ⟨⟨rfl, trivial⟩, rfl⟩
  | succ n ih =>
    rw [List.replicate_succ, List.cons_append]
    exact ⟨⟨rfl, ih.1⟩, ih.2⟩

theorem Returned.episode (e : β × Nat) : Returned (episode e) := by
  obtain ⟨hallowed, hend⟩ := guarded_uses e.1 e.2
  exact ⟨⟨rfl, hallowed⟩, hend⟩

/-- From either state of the hands: what is in them is used and handed back,
and the episodes follow. -/
theorem exists_episodes {acts : List (Act β)} :
    (Returned acts → ∃ es : List (β × Nat), acts = es.flatMap episode) ∧
      ∀ b, Guarded held Allowed (some b) acts → run held (some b) acts = none →
        ∃ (n : Nat) (es : List (β × Nat)), acts = List.replicate n (.use b) ++ .giveBack b :: es.flatMap episode := by
  induction acts with
  | nil => exact ⟨fun _ => ⟨[], rfl⟩, fun b _ hend => nomatch hend⟩
  | cons a acts ih =>
    constructor
    · rintro ⟨⟨ha, hrest⟩, hend⟩
      cases a with
      | use b => cases ha
      | giveBack b => cases ha
      | take b =>
        obtain ⟨n, es, rfl⟩ := ih.2 b hrest hend
        exact ⟨(b, n) :: es, by simp [Ownership.episode]⟩
    · rintro b ⟨ha, hrest⟩ hend
      cases a with
      | take b' => cases ha
      | use b' =>
        cases ha
        obtain ⟨n, es, rfl⟩ := ih.2 b hrest hend
        exact ⟨n + 1, es, rfl⟩
      | giveBack b' =>
        cases ha
        obtain ⟨es, rfl⟩ := ih.1 ⟨hrest, hend⟩
        exact ⟨0, es, rfl⟩

theorem returned_iff {acts : List (Act β)} : Returned acts ↔ ∃ es : List (β × Nat), acts = es.flatMap episode := by
  refine ⟨exists_episodes.1, ?_⟩
  rintro ⟨es, rfl⟩
  induction es with
  | nil => exact .nil
  | cons e es ih => exact (Returned.episode e).append ih

/-- The buffers taken, in order. -/
def taken (acts : List (Act β)) : List β := acts.filterMap fun | .take b => some b | _ => none

@[simp] theorem taken_append (acts acts' : List (Act β)) : taken (acts ++ acts') = taken acts ++ taken acts' :=
  List.filterMap_append

@[simp] theorem taken_episode (e : β × Nat) : taken (episode e) = [e.1] := by
  have huses : taken (List.replicate e.2 (.use e.1)) = [] := List.filterMap_replicate_of_none rfl
  have hsplit : episode e = [.take e.1] ++ List.replicate e.2 (.use e.1) ++ [.giveBack e.1] := rfl
  rw [hsplit, taken_append, taken_append, huses]
  rfl

theorem taken_episodes (es : List (β × Nat)) : taken (es.flatMap episode) = es.map (·.1) := by
  induction es with
  | nil => rfl
  | cons e es ih => rw [List.flatMap_cons, taken_append, taken_episode, ih, List.map_cons, List.singleton_append]

/-! ## Programs that log acts -/

variable {ε α α' : Type}

/-- A program that logs events `ε`, and beside them what it does with buffers. -/
abbrev Watched (ε β : Type) := Traced (ε ⊕ Act β)

/-- A part of a program that takes and uses no buffer. -/
def does (x : Traced ε α) : Watched ε β α := mapLog .inl x

def took (b : β) : Watched ε β PUnit := tell [.inr (.take b)]

def uses (b : β) : Watched ε β PUnit := tell [.inr (.use b)]

/-- The events without the acts. -/
def events (l : List (ε ⊕ Act β)) : List ε := l.filterMap Sum.getLeft?

/-- The acts of a log: its own, and the buffers `back` says an event hands back. -/
def acts (back : ε → Option β) (l : List (ε ⊕ Act β)) : List (Act β) :=
  l.filterMap fun | .inl e => (back e).map .giveBack | .inr a => some a

@[simp] theorem events_append (l l' : List (ε ⊕ Act β)) : events (l ++ l') = events l ++ events l' :=
  List.filterMap_append

@[simp] theorem acts_append (back : ε → Option β) (l l' : List (ε ⊕ Act β)) :
    acts back (l ++ l') = acts back l ++ acts back l' :=
  List.filterMap_append

@[simp] theorem acts_does (back : ε → Option β) (x : Traced ε α) :
    acts back (log (does x)) = (log x).filterMap fun e => (back e).map .giveBack := by
  rw [does, log_mapLog, acts, List.filterMap_map]
  rfl

/-- A part that hands nothing back has no acts. -/
theorem acts_does_nil {back : ε → Option β} {x : Traced ε α} (h : ∀ e ∈ log x, back e = none) :
    acts back (log (does x)) = [] := by
  rw [acts_does]
  refine List.filterMap_eq_nil_iff.mpr fun e he => ?_
  rw [h e he]
  rfl

/-- `x` is `y` with the acts logged. -/
structure Erases (x : Watched ε β α) (y : Traced ε α) : Prop where
  val : x.val = y.val
  log : events x.log = y.log

theorem Erases.pure (a : α) : Erases (β := β) (pure a) (pure a : Traced ε α) := ⟨rfl, rfl⟩

theorem Erases.does (x : Traced ε α) : Erases (β := β) (does x) x where
  val := rfl
  log := by
    rw [Ownership.does, log_mapLog, events, List.filterMap_map]
    exact List.filterMap_some

theorem Erases.bind {x : Watched ε β α} {y : Traced ε α} {f : α → Watched ε β α'} {g : α → Traced ε α'}
    (h : Erases x y) (hf : ∀ a, Erases (f a) (g a)) : Erases (x >>= f) (y >>= g) where
  val := by
    rw [val_bind, val_bind, h.val]
    exact (hf _).val
  log := by
    rw [log_bind, log_bind, events_append, h.log, h.val, (hf _).log]

/-- An act is not seen. -/
theorem Erases.act {x : Watched ε β PUnit} {f : PUnit → Watched ε β α} {y : Traced ε α} (hx : events x.log = [])
    (h : Erases (f ⟨⟩) y) : Erases (x >>= f) y where
  val := h.val
  log := by
    rw [log_bind, events_append, hx, List.nil_append]
    exact h.log

end Embed.Ownership
