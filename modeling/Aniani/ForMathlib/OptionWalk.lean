import Mathlib.Data.List.Basic

/-!
# Walks that may fail

A walk over a list that may fail at each element fails if it does at one of them, and is a plain map
or fold if it does at none.

## Main results

* `List.mapM_eq_some_map`, `List.mapM_eq_none`
* `List.foldlM_eq_some_foldl`, `List.foldlM_eq_none`
-/

namespace List

variable {α β : Type} {l : List α}

theorem mapM_eq_some_map {f : α → Option β} {g : α → β} (h : ∀ a ∈ l, f a = some (g a)) :
    l.mapM f = some (l.map g) := by
  induction l with
  | nil => rfl
  | cons a l ih =>
    rw [mapM_cons, h a mem_cons_self, ih fun b hb => h b (mem_cons_of_mem a hb)]
    rfl

theorem mapM_eq_none {f : α → Option β} {a : α} (ha : a ∈ l) (h : f a = none) :
    l.mapM f = none := by
  induction l with
  | nil => exact absurd ha not_mem_nil
  | cons b l ih =>
    rw [mapM_cons]
    cases hb : f b with
    | none => rfl
    | some c =>
      obtain rfl | ha := mem_cons.mp ha
      · exact absurd (h.symm.trans hb) (by simp)
      · rw [ih ha]
        rfl

theorem foldlM_eq_some_foldl {f : β → α → Option β} {g : β → α → β}
    (h : ∀ acc, ∀ a ∈ l, f acc a = some (g acc a)) (acc : β) :
    l.foldlM f acc = some (l.foldl g acc) := by
  induction l generalizing acc with
  | nil => rfl
  | cons a l ih =>
    rw [foldlM_cons, h acc a mem_cons_self]
    exact ih (fun acc b hb => h acc b (mem_cons_of_mem a hb)) _

theorem foldlM_eq_none {f : β → α → Option β} {a : α} (ha : a ∈ l) (h : ∀ acc, f acc a = none)
    (acc : β) : l.foldlM f acc = none := by
  induction l generalizing acc with
  | nil => exact absurd ha not_mem_nil
  | cons b l ih =>
    rw [foldlM_cons]
    cases hb : f acc b with
    | none => rfl
    | some acc' =>
      obtain rfl | ha := mem_cons.mp ha
      · exact absurd ((h acc).symm.trans hb) (by simp)
      · exact ih ha acc'

end List
