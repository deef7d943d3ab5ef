/-
Regular expressions as a backtracking matcher sees them: alternatives in
order, repetition greedy, the leftmost match first.

`Regex.ways r s` is every way `r` matches a prefix of `s`, the preferred
one first, with what each group captured and what is left; `indexIn` is the
first match from a position on, with the preferred way to match there.
-/
import Mathlib.Data.List.Basic

namespace Embed

inductive Regex where
  /-- One of several words, the first that fits preferred. -/
  | words (ws : List (List Char))
  /-- `[...]+`: one or more characters of a class, as many as possible preferred. -/
  | many1 (cls : Char → Bool)
  | seq (r t : Regex)
  /-- A group that captures, with its number. -/
  | group (n : Nat) (r : Regex)

namespace Regex

/-- What the groups captured. -/
abbrev Captures := List (Nat × List Char)

/-- The ways a prefix of the text matches, preferred first, each with its
captures and the rest of the text. -/
def ways : Regex → List Char → List (Captures × List Char)
  | words ws, s => (ws.filter (·.isPrefixOf s)).map fun w => ([], s.drop w.length)
  | many1 cls, s => (List.range (s.takeWhile cls).length).reverse.map fun k => ([], s.drop (k + 1))
  | seq r t, s => (r.ways s).flatMap fun m => (t.ways m.2).map fun m' => (m.1 ++ m'.1, m'.2)
  | group n r, s => (r.ways s).map fun m => ((n, s.take (s.length - m.2.length)) :: m.1, m.2)

/-- A match in a text. -/
structure Match where
  pos : Nat
  length : Nat
  caps : Captures
  deriving DecidableEq, Repr

/-- `cap(n)`. -/
def Match.cap (m : Match) (n : Nat) : List Char := (m.caps.lookup n).getD []

/-- The match at the start of `s`, which stands at `pos`. -/
def matchAt (r : Regex) (s : List Char) (pos : Nat) : Option Match :=
  (r.ways s).head?.map fun (caps, rest) => ⟨pos, s.length - rest.length, caps⟩

/-- The first match in `s`, which stands at `pos`. -/
def search (r : Regex) : List Char → Nat → Option Match
  | [], pos => r.matchAt [] pos
  | c :: s, pos => (r.matchAt (c :: s) pos).or (search r s (pos + 1))

/-- `indexIn(text, pos)`: the first match that starts at `pos` or later. -/
def indexIn (r : Regex) (text : List Char) (pos : Nat) : Option Match :=
  if pos ≤ text.length then r.search (text.drop pos) pos else none

theorem matchAt_none {r : Regex} {s : List Char} (h : r.ways s = []) (pos : Nat) : r.matchAt s pos = none := by
  rw [matchAt, h]
  rfl

theorem search_of_matchAt {r : Regex} {s : List Char} {pos : Nat} {m : Match} (h : r.matchAt s pos = some m) :
    r.search s pos = some m := by
  cases s with
  | nil => exact h
  | cons c s => rw [search, h, Option.some_or]

/-- A part of the text at none of whose positions there is a match is skipped. -/
theorem search_skip {r : Regex} {t s : List Char} (h : ∀ t', t' <:+ t → t' ≠ [] → r.ways (t' ++ s) = []) (pos : Nat) :
    r.search (t ++ s) pos = r.search s (pos + t.length) := by
  induction t generalizing pos with
  | nil => rfl
  | cons c t ih =>
    have hc : r.ways (c :: t ++ s) = [] := h (c :: t) List.suffix_rfl (List.cons_ne_nil c t)
    rw [List.cons_append] at hc ⊢
    rw [search, matchAt_none hc, Option.none_or, ih fun t' ht' => h t' (ht'.trans (List.suffix_cons c t)),
      List.length_cons]
    congr 1
    omega

theorem search_nil_of_none {r : Regex} {pos : Nat} (h : r.ways [] = []) : r.search [] pos = none := matchAt_none h pos

/-! ## What a match takes -/

/-- Every match takes some of the text. -/
def Consumes (r : Regex) : Prop := ∀ s, ∀ m ∈ r.ways s, m.2.length < s.length

theorem ways_length (r : Regex) : ∀ s, ∀ m ∈ r.ways s, m.2.length ≤ s.length := by
  induction r with
  | words ws =>
    intro s m hm
    obtain ⟨w, -, rfl⟩ := List.mem_map.mp hm
    exact (List.drop_sublist _ s).length_le
  | many1 cls =>
    intro s m hm
    obtain ⟨k, -, rfl⟩ := List.mem_map.mp hm
    exact (List.drop_sublist _ s).length_le
  | seq r t ihr iht =>
    intro s m hm
    obtain ⟨m₁, hm₁, hm⟩ := List.mem_flatMap.mp hm
    obtain ⟨m₂, hm₂, rfl⟩ := List.mem_map.mp hm
    exact Nat.le_trans (iht m₁.2 m₂ hm₂) (ihr s m₁ hm₁)
  | group n r ih =>
    intro s m hm
    obtain ⟨m', hm', rfl⟩ := List.mem_map.mp hm
    exact ih s m' hm'

theorem many1_consumes (cls : Char → Bool) : (many1 cls).Consumes := by
  intro s m hm
  obtain ⟨k, hk, rfl⟩ := List.mem_map.mp hm
  rw [List.mem_reverse, List.mem_range] at hk
  have hle := (List.takeWhile_sublist (l := s) cls).length_le
  rw [List.length_drop]
  omega

theorem Consumes.group {r : Regex} (h : r.Consumes) (n : Nat) : (group n r).Consumes := by
  intro s m hm
  obtain ⟨m', hm', rfl⟩ := List.mem_map.mp hm
  exact h s m' hm'

theorem Consumes.seq_left {r : Regex} (h : r.Consumes) (t : Regex) : (seq r t).Consumes := by
  intro s m hm
  obtain ⟨m₁, hm₁, hm⟩ := List.mem_flatMap.mp hm
  obtain ⟨m₂, hm₂, rfl⟩ := List.mem_map.mp hm
  exact Nat.lt_of_le_of_lt (ways_length t m₁.2 m₂ hm₂) (h s m₁ hm₁)

theorem Consumes.seq_right {t : Regex} (h : t.Consumes) (r : Regex) : (seq r t).Consumes := by
  intro s m hm
  obtain ⟨m₁, hm₁, hm⟩ := List.mem_flatMap.mp hm
  obtain ⟨m₂, hm₂, rfl⟩ := List.mem_map.mp hm
  exact Nat.lt_of_lt_of_le (h m₁.2 m₂ hm₂) (ways_length r s m₁ hm₁)

theorem Consumes.search {r : Regex} (h : r.Consumes) {s : List Char} {pos : Nat} {m : Match} (hm : r.search s pos = some m) :
    pos ≤ m.pos ∧ 0 < m.length ∧ m.pos + m.length ≤ pos + s.length := by
  have hhere {s : List Char} {pos : Nat} (hat : r.matchAt s pos = some m) :
      pos ≤ m.pos ∧ 0 < m.length ∧ m.pos + m.length ≤ pos + s.length := by
    obtain ⟨way, hway, rfl⟩ := Option.map_eq_some_iff.mp hat
    have hless := h s way (List.mem_of_mem_head? hway)
    exact ⟨Nat.le_refl _, by simp only; omega, by simp only; omega⟩
  induction s generalizing pos with
  | nil => exact hhere hm
  | cons c s ih =>
    rw [Regex.search, Option.or_eq_some_iff] at hm
    rcases hm with hat | ⟨-, hlater⟩
    · exact hhere hat
    · obtain ⟨hpos, hlength, hend⟩ := ih hlater
      rw [List.length_cons]
      exact ⟨by omega, hlength, by omega⟩

/-- A match is not empty, and lies in the text from the position on. -/
theorem Consumes.indexIn {r : Regex} (h : r.Consumes) {text : List Char} {pos : Nat} {m : Match}
    (hm : r.indexIn text pos = some m) : pos ≤ m.pos ∧ 0 < m.length ∧ m.pos + m.length ≤ text.length := by
  rw [Regex.indexIn] at hm
  split at hm
  · next hpos =>
    have hbounds := h.search hm
    rw [List.length_drop] at hbounds
    omega
  · cases hm

/-! ## How the parts match -/

theorem words_no_match {ws : List (List Char)} {s : List Char} (h : ∀ w ∈ ws, ¬ w <+: s) :
    (words ws).ways s = [] := by
  simp only [ways, List.map_eq_nil_iff, List.filter_eq_nil_iff, List.isPrefixOf_iff_prefix]
  exact h

theorem word_ways (w s : List Char) : (words [w]).ways (w ++ s) = [([], s)] := by
  simp [ways]

/-- A greedy class takes all it can when what follows fits. -/
theorem seq_many1 {cls : Char → Bool} {v : List Char} {c : Char} {n : Nat} (hv : ∀ x ∈ v, cls x = true) (hne : v ≠ [])
    (hc : cls c = false) (s : List Char) :
    ((seq (group n (many1 cls)) (words [[c]])).ways (v ++ c :: s)).head? = some ([(n, v)], s) := by
  obtain ⟨k, hk⟩ : ∃ k, v.length = k + 1 := Nat.exists_eq_succ_of_ne_zero fun h => hne (List.length_eq_zero_iff.mp h)
  have hspan : ((v ++ c :: s).takeWhile cls).length = k + 1 := by
    rw [List.takeWhile_append_of_pos hv, List.takeWhile_cons_of_neg (by simp [hc]), List.append_nil, hk]
  have hdrop : (v ++ c :: s).drop (k + 1) = c :: s := by rw [← hk, List.drop_left]
  have htake : (v ++ c :: s).take ((v ++ c :: s).length - (c :: s).length) = v := by simp
  simp only [ways, hspan, List.range_succ, List.reverse_append, List.reverse_singleton, List.singleton_append,
    List.map_cons, List.flatMap_cons, hdrop, htake]
  simp

end Regex

end Embed
