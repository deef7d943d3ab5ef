/-
Texts of `KEY:VALUE;` items: `render` writes them one after the other,
`items` reads a text back. On items whose parts hold no `:` and no `;` the
second undoes the first (`items_render`).
-/
import Mathlib.Data.List.Basic

namespace Embed.KeyValue

/-- A key and a value. -/
abbrev Item := List Char × List Char

def Item.render (it : Item) : List Char := it.1 ++ ':' :: it.2 ++ [';']

/-- The text of a list of items. -/
def render (its : List Item) : List Char := its.flatMap Item.render

/-- Neither of the two separators. -/
def IsPlain (c : Char) : Bool := c != ':' && c != ';'

/-- An item that reads back: a value is there, and no part holds a separator. -/
structure Item.WellFormed (it : Item) : Prop where
  key : it.1.all IsPlain = true
  value : it.2.all IsPlain = true
  value_ne_nil : it.2 ≠ []

/-- The items of a text: what stands before each `;`, cut at its first `:`.
What follows the last `;` is no item. -/
def itemsFrom (key value : List Char) (inValue : Bool) : List Char → List Item
  | [] => []
  | c :: s =>
    if c = ';' then (key, value) :: itemsFrom [] [] false s
    else if c = ':' ∧ inValue = false then itemsFrom key [] true s
    else if inValue then itemsFrom key (value ++ [c]) true s
    else itemsFrom (key ++ [c]) value false s

def items (text : List Char) : List Item := itemsFrom [] [] false text

@[simp] theorem render_nil : render [] = [] := rfl

@[simp] theorem render_cons (it : Item) (its : List Item) : render (it :: its) = it.render ++ render its := rfl

@[simp] theorem render_append (its its' : List Item) : render (its ++ its') = render its ++ render its' :=
  List.flatMap_append

theorem Item.length_render (it : Item) : it.render.length = it.1.length + it.2.length + 2 := by
  simp [Item.render]
  omega

theorem itemsFrom_key {k : List Char} (hk : ∀ c ∈ k, IsPlain c = true) (key value s : List Char) :
    itemsFrom key value false (k ++ s) = itemsFrom (key ++ k) value false s := by
  induction k generalizing key with
  | nil => simp
  | cons c k ih =>
    have hc := hk c (by simp)
    simp only [IsPlain, Bool.and_eq_true, bne_iff_ne] at hc
    rw [List.cons_append, itemsFrom, if_neg hc.2, if_neg (fun h => hc.1 h.1), if_neg (by decide),
      ih fun c hc => hk c (List.mem_cons_of_mem _ hc)]
    simp

theorem itemsFrom_value {v : List Char} (hv : ∀ c ∈ v, IsPlain c = true) (key value s : List Char) :
    itemsFrom key value true (v ++ s) = itemsFrom key (value ++ v) true s := by
  induction v generalizing value with
  | nil => simp
  | cons c v ih =>
    have hc := hv c (by simp)
    simp only [IsPlain, Bool.and_eq_true, bne_iff_ne] at hc
    rw [List.cons_append, itemsFrom, if_neg hc.2, if_neg (fun h => hc.1 h.1), if_pos rfl,
      ih fun c hc => hv c (List.mem_cons_of_mem _ hc)]
    simp

theorem items_render {its : List Item} (h : ∀ it ∈ its, it.WellFormed) : items (render its) = its := by
  induction its with
  | nil => rfl
  | cons it its ih =>
    have hit := h it (by simp)
    rw [render_cons, Item.render, List.append_assoc, List.append_assoc, items,
      itemsFrom_key (List.all_eq_true.mp hit.key), List.cons_append, itemsFrom, if_neg (by decide), if_pos (by simp),
      itemsFrom_value (List.all_eq_true.mp hit.value), List.singleton_append, itemsFrom, if_pos rfl]
    exact congrArg _ (ih fun it' h' => h it' (List.mem_cons_of_mem _ h'))

end Embed.KeyValue
