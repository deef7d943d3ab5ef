/-
The lines of a stream: the elements between consecutive terminators.

`lines` are the terminated ones; what follows the last terminator is not a
line yet. `linesFrom` starts inside a line. A stream written line by line is
`terminate`; its lines are the ones that were written (`lines_terminate`).

The fields of a line are its parts between separators, `List.splitOn`.
-/
import Mathlib.Data.List.Basic

namespace Embed

variable {α : Type} (isEnd : α → Bool)

/-- The lines of a stream that starts inside the line begun with `cur`. -/
def linesFrom (cur : List α) : List α → List (List α)
  | [] => []
  | b :: bs => if isEnd b then cur :: linesFrom [] bs else linesFrom (cur ++ [b]) bs

/-- The terminated lines of a stream. -/
def lines (s : List α) : List (List α) := linesFrom isEnd [] s

/-- Lines written with the terminator `e`. -/
def terminate (e : List α) (ls : List (List α)) : List α := (ls.map (· ++ e)).flatten

@[simp] theorem linesFrom_nil (cur : List α) : linesFrom isEnd cur [] = [] := rfl

@[simp] theorem terminate_nil (e : List α) : terminate e [] = [] := rfl

@[simp] theorem terminate_cons (e l : List α) (ls : List (List α)) :
    terminate e (l :: ls) = l ++ (e ++ terminate e ls) := by
  simp [terminate]

variable {isEnd}

/-- What comes before the first terminator belongs to the line begun. -/
theorem linesFrom_append {l : List α} (hl : ∀ b ∈ l, isEnd b = false) (cur rest : List α) :
    linesFrom isEnd cur (l ++ rest) = linesFrom isEnd (cur ++ l) rest := by
  induction l generalizing cur with
  | nil => rw [List.nil_append, List.append_nil]
  | cons b l ih =>
    have hb : isEnd b = false := hl b List.mem_cons_self
    have hrest := ih (fun x hx => hl x (List.mem_cons_of_mem _ hx)) (cur ++ [b])
    rw [List.append_assoc] at hrest
    rw [List.cons_append, linesFrom, hb]
    exact hrest

/-- A line and its terminator. -/
theorem linesFrom_line {l : List α} (hl : ∀ b ∈ l, isEnd b = false) {e : α} (he : isEnd e = true)
    (cur rest : List α) : linesFrom isEnd cur (l ++ e :: rest) = (cur ++ l) :: lines isEnd rest := by
  rw [linesFrom_append hl, linesFrom, he]
  rfl

theorem lines_terminate {ls : List (List α)} (hls : ∀ l ∈ ls, ∀ b ∈ l, isEnd b = false) {e : α}
    (he : isEnd e = true) : lines isEnd (terminate [e] ls) = ls := by
  induction ls with
  | nil => rfl
  | cons l ls ih =>
    have hl := linesFrom_line (hls l List.mem_cons_self) he [] (terminate [e] ls)
    have hrest := ih fun l' h => hls l' (List.mem_cons_of_mem _ h)
    rw [terminate_cons, List.singleton_append, lines, hl, hrest, List.nil_append]

/-- The line begun is a beginning of the first line. -/
theorem linesFrom_eq_modifyHead (cur s : List α) : linesFrom isEnd cur s = (lines isEnd s).modifyHead (cur ++ ·) := by
  have hgen (cur pre : List α) (s : List α) :
      linesFrom isEnd (cur ++ pre) s = (linesFrom isEnd pre s).modifyHead (cur ++ ·) := by
    induction s generalizing pre with
    | nil => rfl
    | cons b s ih =>
      rw [linesFrom, linesFrom]
      cases isEnd b with
      | true => rfl
      | false =>
        rw [List.append_assoc]
        exact ih (pre ++ [b])
  have hnil := hgen cur [] s
  rwa [List.append_nil] at hnil

/-- A stream with a terminator has a line. -/
theorem linesFrom_ne_nil {e : α} (he : isEnd e = true) (s rest cur : List α) :
    linesFrom isEnd cur (s ++ e :: rest) ≠ [] := by
  induction s generalizing cur with
  | nil => simp [linesFrom, he]
  | cons b s ih =>
    rw [List.cons_append, linesFrom]
    cases isEnd b with
    | true => exact List.cons_ne_nil _ _
    | false => exact ih _

/-! ## Texts within a line -/

/-- A text without a terminator is on one side of it. -/
theorem infix_append_cons {x : α} {w : List α} (hx : x ∉ w) (a b : List α) : w <:+: a ++ x :: b ↔ w <:+: a ∨ w <:+: b := by
  constructor
  · intro h
    rcases List.infix_append_iff_ne_nil.mp h with h | h | ⟨l₁, l₂, -, hne, rfl, -, hpre⟩
    · exact .inl h
    · rcases List.infix_cons_iff.mp h with hpre | h
      · rcases List.prefix_cons_iff.mp hpre with rfl | ⟨t, rfl, -⟩
        · exact .inr (List.nil_infix)
        · exact absurd List.mem_cons_self hx
      · exact .inr h
    · rcases List.prefix_cons_iff.mp hpre with rfl | ⟨t, rfl, -⟩
      · exact absurd rfl hne
      · exact absurd (List.mem_append_right _ List.mem_cons_self) hx
  · intro h
    cases h with
    | inl h => exact h.trans (List.prefix_append a (x :: b)).isInfix
    | inr h => exact h.trans ((List.suffix_cons x b).isInfix.trans (List.suffix_append a (x :: b)).isInfix)

/-- A text is behind what its first element is not in. -/
theorem infix_of_append {x : α} {w a b : List α} (hx : x ∉ a) (h : x :: w <:+: a ++ b) : x :: w <:+: b := by
  rcases List.infix_append_iff_ne_nil.mp h with h | h | ⟨l₁, l₂, hne, -, heq, hsuf, -⟩
  · exact absurd (h.subset List.mem_cons_self) hx
  · exact h
  · cases l₁ with
    | nil => exact absurd rfl hne
    | cons y l₁ =>
      rw [List.cons_append, List.cons.injEq] at heq
      exact absurd (hsuf.subset (heq.1 ▸ List.mem_cons_self)) hx

/-- A stream that does not have the text `x :: w`, and in which the line of
every `x` is ended. -/
structure Lacks (e x : α) (w s : List α) : Prop where
  absent : ¬ x :: w <:+: s
  ended : ∀ a b, s = a ++ x :: b → e ∈ b

section

variable {e x : α} {w s t : List α}

theorem Lacks.of_not_mem (h : x ∉ s) : Lacks e x w s where
  absent hw := h (hw.subset List.mem_cons_self)
  ended a _ heq := absurd (heq ▸ List.mem_append_right a List.mem_cons_self) h

theorem Lacks.nil : Lacks e x w [] := .of_not_mem List.not_mem_nil

/-- A line and its end. -/
theorem Lacks.line (he : e ∉ x :: w) (h : ¬ x :: w <:+: s) : Lacks e x w (s ++ [e]) where
  absent hw := by
    cases (infix_append_cons he s []).mp hw with
    | inl hs => exact h hs
    | inr hnil => exact absurd (List.infix_nil.mp hnil) (List.cons_ne_nil x w)
  ended a b heq := by
    rcases List.eq_nil_or_concat b with rfl | ⟨b, y, rfl⟩
    · have hlast := (List.cons.inj (List.append_inj' heq rfl).2).1
      exact absurd (List.mem_cons.mpr (.inl hlast)) he
    · have hsplit : s ++ [e] = a ++ x :: b ++ [y] := by rw [heq, List.concat_eq_append, List.append_assoc, List.cons_append]
      have hlast := (List.cons.inj (List.append_inj' hsplit rfl).2).1
      rw [hlast, List.concat_eq_append]
      exact List.mem_append_right b List.mem_cons_self

/-- No line goes from one stream into the next. -/
theorem Lacks.append (he : e ∉ w) (hs : Lacks e x w s) (ht : Lacks e x w t) : Lacks e x w (s ++ t) where
  absent hw := by
    rcases List.infix_append_iff_ne_nil.mp hw with h | h | ⟨l₁, l₂, hne, -, heq, ⟨a, ha⟩, -⟩
    · exact hs.absent h
    · exact ht.absent h
    · cases l₁ with
      | nil => exact hne rfl
      | cons y l₁ =>
        rw [List.cons_append, List.cons.injEq] at heq
        obtain ⟨rfl, rfl⟩ := heq
        exact he (List.mem_append_left _ (hs.ended a l₁ ha.symm))
  ended a b heq := by
    rcases List.append_eq_append_iff.mp heq with ⟨a', rfl, rfl⟩ | ⟨b', rfl, hb⟩
    · exact ht.ended a' b rfl
    · cases b' with
      | nil => exact ht.ended [] b hb.symm
      | cons y b' =>
        rw [List.cons_append, List.cons.injEq] at hb
        obtain ⟨rfl, rfl⟩ := hb
        exact List.mem_append_left t (hs.ended a b' rfl)

theorem Lacks.flatten (he : e ∉ w) {ss : List (List α)} (h : ∀ s ∈ ss, Lacks e x w s) : Lacks e x w ss.flatten := by
  induction ss with
  | nil => exact .nil
  | cons s ss ih =>
    have hrest := ih fun t ht => h t (List.mem_cons_of_mem s ht)
    exact (h s List.mem_cons_self).append he hrest

theorem Lacks.of_suffix (h : Lacks e x w s) (ht : t <:+ s) : Lacks e x w t where
  absent hw := h.absent (hw.trans ht.isInfix)
  ended a b heq := by
    obtain ⟨p, rfl⟩ := ht
    exact h.ended (p ++ a) b (by rw [heq, List.append_assoc])

/-- A line end behind one more letter, anywhere in the stream, when the text does
not end with the letter. -/
theorem Lacks.insert {y : α} (he : e ∉ x :: w) (hy : (x :: w).getLast? ≠ some y) (h : Lacks e x w (s ++ t)) :
    Lacks e x w (s ++ ([y, e] ++ t)) := by
  have hfront : ¬ x :: w <:+: s ++ [y] := by
    rw [List.infix_concat_iff, not_or]
    refine ⟨fun hend => hy ?_, fun hin => h.absent (hin.trans (List.prefix_append s t).isInfix)⟩
    obtain ⟨a, ha⟩ := hend
    have hlast := congrArg List.getLast? ha
    rwa [List.getLast?_append_of_ne_nil _ (List.cons_ne_nil x w), List.getLast?_concat] at hlast
  have hline := Lacks.line he hfront
  rw [List.append_assoc] at hline
  rw [← List.append_assoc]
  exact hline.append (fun hmem => he (List.mem_cons_of_mem x hmem)) (h.of_suffix (List.suffix_append s t))

end

/-! ## Fields -/

section

variable [BEq α]

theorem length_splitOn (a : α) (l : List α) : (l.splitOn a).length = l.count a + 1 := by
  induction l with
  | nil => rfl
  | cons b l ih =>
    rw [List.splitOn_cons_eq_if_modifyHead, List.count_cons]
    cases b == a with
    | true => simpa using ih
    | false => simpa using ih

/-- The first field. -/
theorem head_splitOn (a : α) (l : List α) : (l.splitOn a).head? = some (l.takeWhile (· != a)) := by
  induction l with
  | nil => rfl
  | cons b l ih =>
    rw [List.splitOn_cons_eq_if_modifyHead, List.takeWhile_cons]
    cases hb : b == a with
    | true => simp [bne, hb]
    | false => simp [bne, hb, List.head?_modifyHead, ih]

end

/-! ## Readers that drop lines -/

/-- A reader that keeps the good elements as they are keeps nothing else
exactly when it drops the others. -/
theorem filterMap_eq_filter_iff {f : α → Option α} {good : α → Bool} (hgood : ∀ a, good a = true → f a = some a)
    (l : List α) : l.filterMap f = l.filter good ↔ ∀ a ∈ l, good a = true ∨ f a = none := by
  have hlen (l : List α) : (l.filter good).length ≤ (l.filterMap f).length := by
    induction l with
    | nil => exact Nat.le_refl _
    | cons a l ih =>
      by_cases ha : good a = true
      · rw [List.filter_cons_of_pos ha, List.filterMap_cons, hgood a ha]
        exact Nat.succ_le_succ ih
      · rw [List.filter_cons_of_neg ha]
        refine Nat.le_trans ih ?_
        cases hf : f a <;> simp [hf]
  induction l with
  | nil => simp
  | cons a l ih =>
    rw [List.forall_mem_cons]
    by_cases ha : good a = true
    · rw [List.filter_cons_of_pos ha, List.filterMap_cons, hgood a ha, List.cons_inj_right]
      simpa only [ha, true_or, true_and] using ih
    · rw [List.filter_cons_of_neg ha, List.filterMap_cons]
      cases hf : f a with
      | none => simpa only [or_true, true_and] using ih
      | some b =>
        -- One element too many.
        refine iff_of_false (fun heq => ?_) (by simp [ha])
        have hle := hlen l
        have hlong := congrArg List.length heq
        rw [List.length_cons] at hlong
        omega

end Embed
