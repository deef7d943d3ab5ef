/-
The search for `(K1|K2|...):([^;]+);` in a text of `KEY:VALUE;` items.

* `search_known`: at an item with one of the keys it matches the item.
* `search_unknown`: an item is passed over when no key ends its key.
-/
import OflMetrics.Embed.KeyValue
import OflMetrics.Embed.Regex

namespace Embed

open KeyValue Regex

/-- `:([^;]+);` -/
def valueRegex : Regex :=
  .seq (.words [":".toList]) (.seq (.group 2 (.many1 (· != ';'))) (.words [";".toList]))

/-- `(K1|K2|...):([^;]+);` -/
def itemRegex (ks : List (List Char)) : Regex := .seq (.group 1 (.words ks)) valueRegex

variable {ks : List (List Char)}

/-- A match takes its value at least. -/
theorem itemRegex_consumes (ks : List (List Char)) : (itemRegex ks).Consumes :=
  Consumes.seq_right (Consumes.seq_right (((many1_consumes _).group 2).seq_left _) _) _

theorem isPlain_iff {c : Char} : IsPlain c = true ↔ c ≠ ':' ∧ c ≠ ';' := by simp [IsPlain]

/-- A key and its colon at the start of a plain word and a separator: the word
is the key. -/
theorem prefix_sep {k t s : List Char} {c : Char} (hk : k.all IsPlain = true) (ht : t.all IsPlain = true)
    (hc : IsPlain c = false) (h : k ++ [':'] <+: t ++ c :: s) : k = t ∧ c = ':' := by
  induction k generalizing t with
  | nil =>
    cases t with
    | nil => exact ⟨rfl, (List.cons_prefix_cons.mp h).1.symm⟩
    | cons b t =>
      have hb : ':' = b := (List.cons_prefix_cons.mp h).1
      rw [← hb] at ht
      exact absurd ht (by simp [IsPlain])
  | cons a k ih =>
    rw [List.all_cons, Bool.and_eq_true] at hk
    cases t with
    | nil =>
      have ha : a = c := (List.cons_prefix_cons.mp h).1
      rw [ha, hc] at hk
      exact absurd hk.1 Bool.false_ne_true
    | cons b t =>
      rw [List.all_cons, Bool.and_eq_true] at ht
      obtain ⟨hab, hrest⟩ := List.cons_prefix_cons.mp h
      obtain ⟨hkt, hcolon⟩ := ih hk.2 ht.2 hrest
      exact ⟨by rw [hab, hkt], hcolon⟩

theorem valueRegex_no_match {s : List Char} (h : ¬ [':'] <+: s) : valueRegex.ways s = [] := by
  have hcolon : (Regex.words [":".toList]).ways s = [] := words_no_match (by simpa using h)
  simp only [valueRegex, ways] at hcolon ⊢
  rw [hcolon]
  rfl

theorem valueRegex_match {v : List Char} (hv : v.all IsPlain = true) (hne : v ≠ []) (s : List Char) :
    (valueRegex.ways (':' :: (v ++ ';' :: s))).head? = some ([(2, v)], s) := by
  have hcls : ∀ x ∈ v, (x != ';') = true := fun x hx => by
    simpa using (isPlain_iff.mp (List.all_eq_true.mp hv x hx)).2
  have hrest := seq_many1 (n := 2) hcls hne (show (';' != ';') = false from rfl) s
  have hcolon : (Regex.words [":".toList]).ways (':' :: (v ++ ';' :: s)) = [([], v ++ ';' :: s)] :=
    word_ways [':'] _
  rw [valueRegex, Regex.ways, hcolon]
  simpa using hrest

/-- The ways to match an item: a key that fits, then its value. -/
theorem itemRegex_ways (s : List Char) :
    (itemRegex ks).ways s = (ks.filter (·.isPrefixOf s)).flatMap fun k =>
      (valueRegex.ways (s.drop k.length)).map fun m =>
        ((1, s.take (s.length - (s.drop k.length).length)) :: m.1, m.2) := by
  simp only [itemRegex, ways, List.flatMap_map, List.map_map]
  rfl

theorem itemRegex_no_match {s : List Char} (h : ∀ k ∈ ks, ¬ k ++ [':'] <+: s) : (itemRegex ks).ways s = [] := by
  rw [itemRegex_ways, List.flatMap_eq_nil_iff]
  intro k hmem
  obtain ⟨hk, hpre⟩ := List.mem_filter.mp hmem
  obtain ⟨u, hu⟩ := List.isPrefixOf_iff_prefix.mp hpre
  rw [← hu, List.drop_left, valueRegex_no_match, List.map_nil]
  rintro ⟨u', rfl⟩
  exact h k hk ⟨u', by rw [← hu]; simp⟩

/-- The first of several tries that agree where they succeed. -/
theorem findSome?_eq {α β : Type} {f : α → Option β} {b : β} {l : List α} (h : ∀ a ∈ l, f a = none ∨ f a = some b)
    (hex : ∃ a ∈ l, f a = some b) : l.findSome? f = some b := by
  induction l with
  | nil => obtain ⟨a, ha, -⟩ := hex; cases ha
  | cons a l ih =>
    rw [List.findSome?_cons]
    rcases h a (by simp) with hnone | hsome
    · rw [hnone]
      refine ih (fun x hx => h x (List.mem_cons_of_mem a hx)) ?_
      obtain ⟨x, hx, hfx⟩ := hex
      rcases List.mem_cons.mp hx with rfl | hx
      · rw [hnone] at hfx; cases hfx
      · exact ⟨x, hx, hfx⟩
    · rw [hsome]

theorem itemRegex_match {it : Item} (hit : it.WellFormed) (hmem : it.1 ∈ ks) (hks : ∀ k ∈ ks, k.all IsPlain = true)
    (s : List Char) : ((itemRegex ks).ways (it.render ++ s)).head? = some ([(1, it.1), (2, it.2)], s) := by
  have hsplit : it.render ++ s = it.1 ++ ':' :: (it.2 ++ ';' :: s) := by simp [Item.render]
  rw [hsplit, itemRegex_ways, List.head?_flatMap]
  have hdrop : (it.1 ++ ':' :: (it.2 ++ ';' :: s)).drop it.1.length = ':' :: (it.2 ++ ';' :: s) := List.drop_left
  have hself : (((valueRegex.ways ((it.1 ++ ':' :: (it.2 ++ ';' :: s)).drop it.1.length)).map fun m =>
      ((1, (it.1 ++ ':' :: (it.2 ++ ';' :: s)).take ((it.1 ++ ':' :: (it.2 ++ ';' :: s)).length -
        ((it.1 ++ ':' :: (it.2 ++ ';' :: s)).drop it.1.length).length)) :: m.1, m.2)).head?) =
      some ([(1, it.1), (2, it.2)], s) := by
    rw [hdrop, List.head?_map, valueRegex_match hit.value hit.value_ne_nil]
    simp
  refine findSome?_eq (fun k hk => ?_) ⟨it.1, ?_, hself⟩
  · obtain ⟨hk, hpre⟩ := List.mem_filter.mp hk
    by_cases hcolon : k ++ [':'] <+: it.1 ++ ':' :: (it.2 ++ ';' :: s)
    · obtain ⟨rfl, -⟩ := prefix_sep (hks k hk) hit.key (by rfl) hcolon
      exact .inr hself
    · obtain ⟨u, hu⟩ := List.isPrefixOf_iff_prefix.mp hpre
      refine .inl ?_
      rw [← hu, List.drop_left, valueRegex_no_match]
      · rfl
      · rintro ⟨u', rfl⟩
        exact hcolon ⟨u', by rw [← hu]; simp⟩
  · rw [List.mem_filter]
    exact ⟨hmem, List.isPrefixOf_iff_prefix.mpr ⟨_, rfl⟩⟩

/-! ## The search -/

theorem search_known {it : Item} (hit : it.WellFormed) (hmem : it.1 ∈ ks) (hks : ∀ k ∈ ks, k.all IsPlain = true)
    (s : List Char) (pos : Nat) :
    (itemRegex ks).search (it.render ++ s) pos = some ⟨pos, it.render.length, [(1, it.1), (2, it.2)]⟩ := by
  refine search_of_matchAt ?_
  rw [matchAt, itemRegex_match hit hmem hks]
  simp

/-- A plain word and its separator are passed over. -/
theorem search_sep {t : List Char} {c : Char} (hks : ∀ k ∈ ks, k.all IsPlain = true) (ht : t.all IsPlain = true)
    (hc : IsPlain c = false) (hno : ∀ t', t' <:+ t → t' ∈ ks → c ≠ ':') (s : List Char) (pos : Nat) :
    (itemRegex ks).search (t ++ c :: s) pos = (itemRegex ks).search s (pos + (t.length + 1)) := by
  have hways : ∀ t', t' <:+ t ++ [c] → t' ≠ [] → (itemRegex ks).ways (t' ++ s) = [] := by
    intro t' ht' hne
    obtain ⟨u, hu, hsuf⟩ : ∃ u, t' = u ++ [c] ∧ u <:+ t := by
      obtain ⟨u₀, hu₀⟩ := ht'
      obtain ⟨u, a, rfl⟩ := List.eq_nil_or_concat' t' |>.resolve_left hne
      rw [← List.append_assoc, List.append_singleton_inj] at hu₀
      exact ⟨u, by rw [hu₀.2], ⟨u₀, hu₀.1⟩⟩
    subst hu
    refine itemRegex_no_match fun k hk hpre => ?_
    have hplain : u.all IsPlain = true :=
      List.all_eq_true.mpr fun x hx => List.all_eq_true.mp ht x (hsuf.subset hx)
    rw [List.append_assoc, List.singleton_append] at hpre
    obtain ⟨rfl, hcolon⟩ := prefix_sep (hks k hk) hplain hc hpre
    exact hno _ hsuf hk hcolon
  have hskip := search_skip hways pos
  rw [List.append_assoc, List.singleton_append, List.length_append, List.length_singleton] at hskip
  exact hskip

theorem search_unknown {it : Item} (hit : it.WellFormed) (hks : ∀ k ∈ ks, k.all IsPlain = true)
    (hno : ∀ t, t <:+ it.1 → t ∉ ks) (s : List Char) (pos : Nat) :
    (itemRegex ks).search (it.render ++ s) pos = (itemRegex ks).search s (pos + it.render.length) := by
  have hsplit : it.render ++ s = it.1 ++ ':' :: (it.2 ++ ';' :: s) := by simp [Item.render]
  rw [hsplit, search_sep hks hit.key rfl (fun t ht hmem => absurd hmem (hno t ht)),
    search_sep hks hit.value rfl fun _ _ _ => by decide, Item.length_render]
  congr 1
  omega

end Embed
