/-
While loops that may not end. `whileLoop` tests its condition `fuel` times at
most; `Ends` says that some number of tests is enough, how many turns the loop
makes, and where it ends (`ends_iff`: no other way).

A variant that each turn takes one off counts the turns (`Ends.of_variant`), as
in a loop that counts up to a bound (`Ends.of_counter`). A loop whose condition holds in every state of an invariant never ends
(`not_ends`).
-/
import Mathlib.Logic.Function.Iterate

namespace Embed

variable {σ : Type}

/-- `while (cond) body`, from `s`: the turns it makes and its last state. -/
def whileLoop (cond : σ → Prop) [DecidablePred cond] (body : σ → σ) : Nat → σ → Option (Nat × σ)
  | 0, _ => none
  | fuel + 1, s =>
    if cond s then (whileLoop cond body fuel (body s)).map fun (n, t) => (n + 1, t) else some (0, s)

/-- From `s` the loop ends in `t`, after `n` turns. -/
def Ends (cond : σ → Prop) [DecidablePred cond] (body : σ → σ) (s : σ) (n : Nat) (t : σ) : Prop :=
  ∃ fuel, whileLoop cond body fuel s = some (n, t)

namespace Ends

variable {cond : σ → Prop} [DecidablePred cond] {body : σ → σ} {s t : σ} {n : Nat}

/-- The condition is false already. -/
theorem of_not (h : ¬ cond s) : Ends cond body s 0 s := by
  refine ⟨1, ?_⟩
  rw [whileLoop, if_neg h]

/-- One turn more. -/
theorem turn (h : cond s) (hrest : Ends cond body (body s) n t) : Ends cond body s (n + 1) t := by
  obtain ⟨fuel, hfuel⟩ := hrest
  refine ⟨fuel + 1, ?_⟩
  rw [whileLoop, if_pos h, hfuel]
  rfl

/-- What a loop that ends does first. -/
theorem cases_turn (h : Ends cond body s n t) :
    (¬ cond s ∧ n = 0 ∧ t = s) ∨ ∃ m, cond s ∧ n = m + 1 ∧ Ends cond body (body s) m t := by
  obtain ⟨fuel, hfuel⟩ := h
  cases fuel with
  | zero => cases hfuel
  | succ fuel =>
    rw [whileLoop] at hfuel
    by_cases hcond : cond s
    · rw [if_pos hcond, Option.map_eq_some_iff] at hfuel
      obtain ⟨⟨m, t'⟩, hrest, heq⟩ := hfuel
      cases heq
      exact .inr ⟨m, hcond, rfl, fuel, hrest⟩
    · rw [if_neg hcond] at hfuel
      cases hfuel
      exact .inl ⟨hcond, rfl, rfl⟩

end Ends

variable {cond : σ → Prop} [DecidablePred cond] {body : σ → σ} {s t : σ} {n : Nat}

/-- A loop ends after `n` turns when the condition has held before each of
them and does not hold after the last. -/
theorem ends_iff : Ends cond body s n t ↔ t = body^[n] s ∧ ¬ cond t ∧ ∀ k < n, cond (body^[k] s) := by
  induction n generalizing s with
  | zero =>
    constructor
    · intro h
      rcases h.cases_turn with ⟨hcond, -, rfl⟩ | ⟨m, -, hm, -⟩
      · exact ⟨rfl, hcond, fun k hk => absurd hk k.not_lt_zero⟩
      · cases hm
    · rintro ⟨rfl, hcond, -⟩
      exact .of_not hcond
  | succ n ih =>
    constructor
    · intro h
      rcases h.cases_turn with ⟨-, hn, -⟩ | ⟨m, hcond, hm, hrest⟩
      · cases hn
      · cases hm
        obtain ⟨hend, hstop, hturns⟩ := ih.mp hrest
        refine ⟨hend, hstop, fun k hk => ?_⟩
        cases k with
        | zero => exact hcond
        | succ k => exact hturns k (Nat.lt_of_succ_lt_succ hk)
    · rintro ⟨hend, hstop, hturns⟩
      exact .turn (hturns 0 n.succ_pos) (ih.mpr ⟨hend, hstop, fun k hk => hturns (k + 1) (Nat.succ_lt_succ hk)⟩)

/-- It ends in one way. -/
theorem Ends.unique {n' : Nat} {t' : σ} (h : Ends cond body s n t) (h' : Ends cond body s n' t') : n = n' ∧ t = t' := by
  obtain ⟨hend, hstop, hturns⟩ := ends_iff.mp h
  obtain ⟨hend', hstop', hturns'⟩ := ends_iff.mp h'
  have hn : n = n' := by
    rcases Nat.lt_trichotomy n n' with hlt | heq | hgt
    · exact absurd (hturns' n hlt) (hend ▸ hstop)
    · exact heq
    · exact absurd (hturns n' hgt) (hend' ▸ hstop')
  rw [hend, hend', hn]
  exact ⟨rfl, rfl⟩

/-- In the states of an invariant the variant is zero when the loop ends, and
each turn takes one off it: there are as many turns as it says. -/
theorem Ends.of_variant {I : σ → Prop} {v : σ → Nat} (hstop : ∀ s, I s → ¬ cond s → v s = 0)
    (hturn : ∀ s, I s → cond s → I (body s) ∧ v s = v (body s) + 1) (hs : I s) :
    Ends cond body s (v s) (body^[v s] s) := by
  have hends : ∀ n s, I s → v s = n → Ends cond body s n (body^[n] s) := by
    intro n
    induction n with
    | zero =>
      intro s hs hv
      refine .of_not fun hcond => ?_
      have hless := (hturn s hs hcond).2
      omega
    | succ n ih =>
      intro s hs hv
      have hcond : cond s := by
        by_contra hcond
        have hzero := hstop s hs hcond
        omega
      obtain ⟨hnext, hless⟩ := hturn s hs hcond
      exact .turn hcond (ih (body s) hnext (by omega))
  exact hends (v s) s hs rfl

/-- A loop that counts up to a bound makes the turns that are missing to it,
if counting goes well below the bound. -/
theorem Ends.of_counter (count : σ → Int) {bound : Int} (hcond : ∀ s, cond s ↔ count s < bound)
    (hcount : ∀ s, count s < bound → count (body s) = count s + 1) (s : σ) :
    ∃ t, Ends cond body s (bound - count s).toNat t := by
  refine ⟨_, Ends.of_variant (I := fun _ => True) (v := fun s => (bound - count s).toNat) ?_ ?_ trivial⟩
  · intro s _ hstop
    have hge : ¬ count s < bound := fun hlt => hstop ((hcond s).mpr hlt)
    omega
  · intro s _ hs
    have hlt := (hcond s).mp hs
    have hnext := hcount s hlt
    exact ⟨trivial, by omega⟩

/-- A loop that never leaves the states its condition holds in never ends. -/
theorem not_ends {I : σ → Prop} (hcond : ∀ s, I s → cond s) (hturn : ∀ s, I s → I (body s)) (hs : I s) :
    ¬ Ends cond body s n t := by
  intro h
  obtain ⟨hend, hstop, -⟩ := ends_iff.mp h
  have hreach : ∀ k, I (body^[k] s) := by
    intro k
    induction k with
    | zero => exact hs
    | succ k ih =>
      rw [Function.iterate_succ_apply']
      exact hturn _ ih
  rw [hend] at hstop
  exact hstop (hcond _ (hreach n))

end Embed
