/-
Memory as C code sees it through a pointer: a total map from offsets to
elements. An array of `n` elements is its first `n` offsets; what lies
behind them is whatever memory follows, so a read past the end has a value,
an arbitrary one, and the log of accesses (`Embed.Traced`) says it happened.

`fill`, `copy`, `store` and `load` are `memset` and `memcpy`; `slice` is
the list of `n` elements from an offset on. The lemmas say what each
operation does to a slice inside and outside the part it writes. `Wrote` is
what a loop that writes a text piece by piece does (`Wrote.append`).
-/
import Mathlib.Data.List.OfFn
import Mathlib.Data.Vector.Basic
import OflMetrics.Embed.Traced

namespace Embed

/-- The elements from an address on. -/
abbrev Mem (α : Type) := Nat → α

/-- `v[0]`, of an array of two. -/
abbrev byte0 {α : Type} (v : Vector α 2) : α := v[0]

/-- `v[1]`. -/
abbrev byte1 {α : Type} (v : Vector α 2) : α := v[1]

namespace Mem

variable {α β : Type}

/-- The memory from `k` elements further on. -/
def drop (m : Mem α) (k : Nat) : Mem α := fun i => m (k + i)

/-- `memset`: `n` elements from `off` on become `v`. -/
def fill (m : Mem α) (off : Nat) (v : α) (n : Nat) : Mem α :=
  fun i => if off ≤ i ∧ i < off + n then v else m i

/-- `memcpy`: `n` elements of `src` go to `off` on. -/
def copy (m : Mem α) (off : Nat) (src : Mem α) (n : Nat) : Mem α :=
  fun i => if off ≤ i ∧ i < off + n then src (i - off) else m i

/-- `memcpy` of a whole array into memory. -/
def store {n : Nat} (m : Mem α) (off : Nat) (v : Vector α n) : Mem α :=
  fun i => if h : off ≤ i ∧ i - off < n then v[i - off] else m i

/-- `memcpy` from memory into a whole array. -/
def load (m : Mem α) (off n : Nat) : Vector α n := Vector.ofFn fun i => m (off + i)

/-- The `n` elements from `off` on. -/
def slice (m : Mem α) (off n : Nat) : List α := List.ofFn fun i : Fin n => m (off + i)

/-! ## Slices -/

@[simp] theorem length_slice (m : Mem α) (off n : Nat) : (slice m off n).length = n := by simp [slice]

@[simp] theorem getElem_slice (m : Mem α) (off n i : Nat) (h : i < (slice m off n).length) :
    (slice m off n)[i] = m (off + i) := by
  simp [slice]

@[simp] theorem slice_zero (m : Mem α) (off : Nat) : slice m off 0 = [] := by simp [slice]

theorem slice_congr {m m' : Mem α} {off off' n : Nat} (h : ∀ i, i < n → m (off + i) = m' (off' + i)) :
    slice m off n = slice m' off' n :=
  List.ext_getElem (by simp) fun i hi _ => by
    simp only [length_slice] at hi
    simpa using h i hi

theorem eq_of_slice_eq {m m' : Mem α} {off off' n i : Nat} (h : slice m off n = slice m' off' n) (hi : i < n) :
    m (off + i) = m' (off' + i) := by
  have hget := List.getElem_of_eq h (i := i) (by simpa using hi)
  simpa using hget

/-- A slice falls into two. -/
theorem slice_add (m : Mem α) (off a b : Nat) :
    slice m off (a + b) = slice m off a ++ slice m (off + a) b := by
  refine List.ext_getElem (by simp) fun i hi _ => ?_
  simp only [length_slice] at hi
  rcases Nat.lt_or_ge i a with ha | ha
  · rw [List.getElem_append_left (by simpa using ha)]
    simp
  · rw [List.getElem_append_right (by simpa using ha)]
    simp only [getElem_slice, length_slice]
    congr 1
    omega

theorem slice_succ (m : Mem α) (off n : Nat) : slice m off (n + 1) = m off :: slice m (off + 1) n := by
  rw [Nat.add_comm n 1, slice_add]
  simp [slice]

/-- A list in memory, with `d` behind it, reads back. -/
theorem slice_getD {l : List α} {n : Nat} (hn : n ≤ l.length) (d : α) : slice (fun i => l.getD i d) 0 n = l.take n := by
  refine List.ext_getElem (by simp [hn]) fun i hi _ => ?_
  rw [length_slice] at hi
  simp [List.getElem?_eq_getElem (Nat.lt_of_lt_of_le hi hn)]

theorem load_toList (m : Mem α) (off n : Nat) : (load m off n).toList = slice m off n :=
  List.ext_getElem (by simp) fun i _ _ => by simp [load]

theorem load_eq_of_slice {m : Mem α} {off n : Nat} {v : Vector α n} (h : slice m off n = v.toList) :
    load m off n = v := by
  rw [← Vector.toList_inj, load_toList, h]

/-! ## What each operation does to a slice -/

theorem slice_copy_self (m src : Mem α) (off n : Nat) : slice (copy m off src n) off n = slice src 0 n :=
  slice_congr fun i hi => by simp [copy, hi]

/-- A slice outside the copied part is unchanged. -/
theorem slice_copy_other {m src : Mem α} {off o n k : Nat} (h : off + k ≤ o ∨ o + n ≤ off) :
    slice (copy m o src n) off k = slice m off k :=
  slice_congr fun i hi => by simp [copy, show ¬ (o ≤ off + i ∧ off + i < o + n) by omega]

theorem slice_store_self {n : Nat} (m : Mem α) (off : Nat) (v : Vector α n) :
    slice (store m off v) off n = v.toList :=
  List.ext_getElem (by simp) fun i hi _ => by
    simp only [length_slice] at hi
    simp [store, hi]

theorem slice_store_other {n : Nat} {m : Mem α} {v : Vector α n} {off o k : Nat}
    (h : off + k ≤ o ∨ o + n ≤ off) : slice (store m o v) off k = slice m off k :=
  slice_congr fun i hi => by
    have : ¬ (o ≤ off + i ∧ off + i - o < n) := by omega
    simp [store, this]

theorem slice_update_other {m : Mem α} {v : α} {off o k : Nat} (h : o < off ∨ off + k ≤ o) :
    slice (Function.update m o v) off k = slice m off k :=
  slice_congr fun i hi => by simp [show off + i ≠ o by omega]

theorem copy_apply_other {m src : Mem α} {o n i : Nat} (h : i < o ∨ o + n ≤ i) : copy m o src n i = m i := by
  simp [copy, show ¬ (o ≤ i ∧ i < o + n) by omega]

theorem store_apply_other {n : Nat} {m : Mem α} {v : Vector α n} {o i : Nat} (h : i < o ∨ o + n ≤ i) :
    store m o v i = m i := by
  simp [store, show ¬ (o ≤ i ∧ i - o < n) by omega]

/-! ## Strings -/

/-- The string at `p`: the elements up to the first `nul`, of the `n` that are
read at most. -/
def cstr [DecidableEq α] (nul : α) (m : Mem α) (p n : Nat) : List α := (slice m p n).takeWhile (· ≠ nul)

/-- A terminated string reads back as itself. -/
theorem cstr_eq [DecidableEq α] {nul : α} {m : Mem α} {p n : Nat} {l : List α} (hl : slice m p l.length = l)
    (hnul : m (p + l.length) = nul) (hne : ∀ a ∈ l, a ≠ nul) (hn : l.length < n) : cstr nul m p n = l := by
  have hsplit : n = l.length + (1 + (n - l.length - 1)) := by omega
  rw [cstr, hsplit, slice_add, hl, Nat.add_comm 1, slice_succ, hnul,
    List.takeWhile_append_of_pos fun a ha => by simpa using hne a ha]
  simp

/-- A string ends at the first `nul`: what lies behind one does not matter. -/
theorem cstr_of_nul [DecidableEq α] {nul : α} {m : Mem α} {p n k : Nat} (hk : k < n) (hnul : m (p + k) = nul) :
    cstr nul m p n = (slice m p k).takeWhile (· ≠ nul) := by
  have hsplit : n = k + (1 + (n - k - 1)) := by omega
  have hcut (l rest : List α) : (l ++ nul :: rest).takeWhile (· ≠ nul) = l.takeWhile (· ≠ nul) := by
    induction l with
    | nil => simp
    | cons a l ih => rw [List.cons_append, List.takeWhile_cons, List.takeWhile_cons, ih]
  rw [cstr, hsplit, slice_add, Nat.add_comm 1, slice_succ, hnul, hcut]

/-! ## Texts written -/

/-- `m'` is `m` with the elements `l` written from `off` on. -/
structure Wrote (m m' : Mem α) (off : Nat) (l : List α) : Prop where
  inside : slice m' off l.length = l
  outside : ∀ i, i < off ∨ off + l.length ≤ i → m' i = m i

section Wrote

variable {m m₁ m₂ : Mem α} {off : Nat} {l l' : List α}

theorem Wrote.nil : Wrote m m off [] := ⟨slice_zero m off, fun _ _ => rfl⟩

theorem Wrote.update (a : α) : Wrote m (Function.update m off a) off [a] where
  inside := by simp [slice_succ]
  outside i hi := Function.update_of_ne (by rw [List.length_singleton] at hi; omega) a m

/-- A text and then the one behind it. -/
theorem Wrote.append (h : Wrote m m₁ off l) (h' : Wrote m₁ m₂ (off + l.length) l') : Wrote m m₂ off (l ++ l') where
  inside := by
    have hkept : slice m₂ off l.length = slice m₁ off l.length :=
      slice_congr fun i hi => h'.outside (off + i) (.inl (by omega))
    rw [List.length_append, slice_add, hkept, h.inside, h'.inside]
  outside i hi := by
    rw [List.length_append] at hi
    rw [h'.outside i (by omega), h.outside i (by omega)]

/-- A text without `nul` is read back when a `nul` is behind it. -/
theorem Wrote.cstr_eq [DecidableEq α] {nul : α} {n : Nat} (h : Wrote m m₁ off l) (hnul : m (off + l.length) = nul)
    (hl : ∀ a ∈ l, a ≠ nul) (hn : l.length < n) : cstr nul m₁ off n = l :=
  Mem.cstr_eq h.inside ((h.outside _ (.inr (Nat.le_refl _))).trans hnul) hl hn

end Wrote

/-! ## Logged operations -/

variable (b b' : β)

/-- The offsets of `n` elements from `off` on. -/
def span (off n : Nat) : List Nat := (List.range n).map (off + ·)

theorem mem_span {off n i : Nat} : i ∈ span off n ↔ off ≤ i ∧ i < off + n := by
  simp only [span, List.mem_map, List.mem_range]
  constructor
  · rintro ⟨j, hj, rfl⟩; omega
  · intro h; exact ⟨i - off, by omega, by omega⟩

theorem span_succ (off n : Nat) : span off (n + 1) = off :: span (off + 1) n := by
  simp only [span, List.range_succ_eq_map, List.map_cons, List.map_map, Nat.add_zero]
  congr 1
  exact List.map_congr_left fun i _ => by simp only [Function.comp]; omega

@[simp] theorem span_zero (off : Nat) : span off 0 = [] := rfl

theorem span_add (off a b : Nat) : span off (a + b) = span off a ++ span (off + a) b := by
  simp only [span, List.range_add, List.map_append, List.map_map]
  congr 1
  exact List.map_congr_left fun i _ => by simp only [Function.comp]; omega

@[simp] theorem length_span (off n : Nat) : (span off n).length = n := by simp [span]

/-- `m[i]`, an element of array `b`. -/
def getT (m : Mem α) (i : Nat) : Traced (Access β) α := do
  tell [.read b i]
  return m i

/-- `m[i] = v`. -/
def setT (m : Mem α) (i : Nat) (v : α) : Traced (Access β) (Mem α) := do
  tell [.write b i]
  return Function.update m i v

/-- `memset(m + off, v, n)`. -/
def fillT (m : Mem α) (off : Nat) (v : α) (n : Nat) : Traced (Access β) (Mem α) := do
  tell ((span off n).map (.write b))
  return fill m off v n

/-- `memcpy(m + off, src + srcOff, n)`. -/
def copyT (m : Mem α) (off : Nat) (src : Mem α) (srcOff n : Nat) : Traced (Access β) (Mem α) := do
  tell ((span srcOff n).map (.read b') ++ (span off n).map (.write b))
  return copy m off (src.drop srcOff) n

/-- `memcpy(m + off, v, n)` for a whole array `v` of `n` elements. -/
def storeT {n : Nat} (m : Mem α) (off : Nat) (v : Vector α n) : Traced (Access β) (Mem α) := do
  tell ((span off n).map (.write b))
  return store m off v

/-- `memcpy(v, m + off, n)` for a whole array `v` of `n` elements. -/
def loadT (m : Mem α) (off n : Nat) : Traced (Access β) (Vector α n) := do
  tell ((span off n).map (.read b))
  return load m off n

section Equations

open Traced

@[simp] theorem val_getT (m : Mem α) (i : Nat) : val (getT b m i) = m i := rfl
@[simp] theorem log_getT (m : Mem α) (i : Nat) : log (getT b m i) = [.read b i] := rfl
@[simp] theorem val_setT (m : Mem α) (i : Nat) (v : α) : val (setT b m i v) = Function.update m i v := rfl
@[simp] theorem log_setT (m : Mem α) (i : Nat) (v : α) : log (setT b m i v) = [.write b i] := rfl
@[simp] theorem val_fillT (m : Mem α) (off : Nat) (v : α) (n : Nat) : val (fillT b m off v n) = fill m off v n := rfl
@[simp] theorem log_fillT (m : Mem α) (off : Nat) (v : α) (n : Nat) :
    log (fillT b m off v n) = (span off n).map (.write b) := by simp [fillT]
@[simp] theorem val_copyT (m : Mem α) (off : Nat) (src : Mem α) (so n : Nat) :
    val (copyT b b' m off src so n) = copy m off (src.drop so) n := rfl
@[simp] theorem log_copyT (m : Mem α) (off : Nat) (src : Mem α) (so n : Nat) :
    log (copyT b b' m off src so n) = (span so n).map (.read b') ++ (span off n).map (.write b) := by simp [copyT]
@[simp] theorem val_storeT {n : Nat} (m : Mem α) (off : Nat) (v : Vector α n) :
    val (storeT b m off v) = store m off v := rfl
@[simp] theorem log_storeT {n : Nat} (m : Mem α) (off : Nat) (v : Vector α n) :
    log (storeT b m off v) = (span off n).map (.write b) := by simp [storeT]
@[simp] theorem val_loadT (m : Mem α) (off n : Nat) : val (loadT b m off n) = load m off n := rfl
@[simp] theorem log_loadT (m : Mem α) (off n : Nat) :
    log (loadT b m off n) = (span off n).map (.read b) := by simp [loadT]

end Equations

end Mem

end Embed
