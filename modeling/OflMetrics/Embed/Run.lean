/-
Runs of a state machine over a list of inputs, and the inductions over them,
each under a guard the inputs meet: a property each step keeps holds at the
end (`Guarded.invariant`), and a relation each step keeps relates two
machines' ends (`Guarded.simulation`).
-/
import Mathlib.Data.List.Basic

namespace Embed

variable {σ τ ι : Type}

/-- The state after the inputs of a list. -/
def run (step : σ → ι → σ) (s : σ) (is : List ι) : σ := is.foldl step s

/-- Every input of the run meets `ok` in the state it is taken in. -/
def Guarded (step : σ → ι → σ) (ok : σ → ι → Prop) : σ → List ι → Prop
  | _, [] => True
  | s, i :: is => ok s i ∧ Guarded step ok (step s i) is

instance Guarded.decidable (step : σ → ι → σ) (ok : σ → ι → Prop) [∀ s i, Decidable (ok s i)] :
    ∀ s is, Decidable (Guarded step ok s is)
  | _, [] => .isTrue trivial
  | s, i :: is =>
    have := Guarded.decidable step ok (step s i) is
    inferInstanceAs (Decidable (ok s i ∧ Guarded step ok (step s i) is))

@[simp] theorem run_nil (step : σ → ι → σ) (s : σ) : run step s [] = s := rfl

@[simp] theorem run_cons (step : σ → ι → σ) (s : σ) (i : ι) (is : List ι) :
    run step s (i :: is) = run step (step s i) is := rfl

theorem run_append (step : σ → ι → σ) (s : σ) (is is' : List ι) :
    run step s (is ++ is') = run step (run step s is) is' := List.foldl_append

variable {step : σ → ι → σ} {ok : σ → ι → Prop}

theorem Guarded.append {s : σ} {is is' : List ι} :
    Guarded step ok s (is ++ is') ↔ Guarded step ok s is ∧ Guarded step ok (run step s is) is' := by
  induction is generalizing s with
  | nil => simp [Guarded]
  | cons i is ih => simp only [List.cons_append, Guarded, ih, run_cons, and_assoc]

/-- The guard holds on every prefix. -/
theorem Guarded.of_prefix {s : σ} {pre is : List ι} (h : Guarded step ok s is) (hp : pre <+: is) :
    Guarded step ok s pre := by
  obtain ⟨rest, rfl⟩ := hp
  exact (Guarded.append.mp h).1

/-- The inputs meet it in every state. -/
theorem Guarded.of_forall {s : σ} {is : List ι} (h : ∀ i ∈ is, ∀ s, ok s i) : Guarded step ok s is := by
  induction is generalizing s with
  | nil => trivial
  | cons i is ih => exact ⟨h i List.mem_cons_self s, ih fun i' hi' => h i' (List.mem_cons_of_mem _ hi')⟩

/-- A guard that follows for these inputs. -/
theorem Guarded.imp {ok' : σ → ι → Prop} {s : σ} {is : List ι} (h : Guarded step ok s is)
    (himp : ∀ i ∈ is, ∀ s, ok s i → ok' s i) : Guarded step ok' s is := by
  induction is generalizing s with
  | nil => trivial
  | cons i is ih => exact ⟨himp i List.mem_cons_self s h.1, ih h.2 fun i' hi' => himp i' (List.mem_cons_of_mem _ hi')⟩

theorem Guarded.simulation {R : σ → τ → Prop} {step' : τ → ι → τ}
    (hstep : ∀ s t i, R s t → ok s i → R (step s i) (step' t i)) :
    ∀ {is : List ι} {s : σ} {t : τ}, R s t → Guarded step ok s is → R (run step s is) (run step' t is) := by
  intro is
  induction is with
  | nil => exact fun hr _ => hr
  | cons i is ih => exact fun hr hg => ih (hstep _ _ i hr hg.1) hg.2

theorem Guarded.invariant {I : σ → Prop} (hstep : ∀ s i, I s → ok s i → I (step s i)) {is : List ι} {s : σ}
    (hi : I s) (hg : Guarded step ok s is) : I (run step s is) := by
  induction is generalizing s with
  | nil => exact hi
  | cons i is ih => exact ih (hstep s i hi hg.1) hg.2

theorem run_invariant {I : σ → Prop} (hstep : ∀ s i, I s → I (step s i)) {is : List ι} {s : σ} (hi : I s) :
    I (run step s is) := by
  induction is generalizing s with
  | nil => exact hi
  | cons i is ih => exact ih (hstep s i hi)

end Embed
