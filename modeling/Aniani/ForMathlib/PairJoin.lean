import Mathlib.Data.List.Perm.Basic
import Mathlib.Data.List.ProdSigma

/-!
# Joins of two lists

A join takes every pair of elements of two lists through a partial function. Up to order it does not
matter which list is walked outside. A join whose results are below those of another one is a
permutation of it only if they are above them too, so that it drops no pair that the other keeps.

## Main definitions

* `List.pairJoin`

## Main results

* `List.pairJoin_swap`
* `List.filterMap_perm_of_le`, `List.pairJoin_perm_of_le`
-/

namespace List

variable {α β γ : Type*}

/-- Where a partial function gives something below what another one gives, its results are a
permutation of the other's only if they are above them too. -/
theorem filterMap_perm_of_le {r : β → β → Prop} (hrefl : ∀ b, r b b)
    (htrans : ∀ {b c d}, r b c → r c d → r b d) {l : List α} {f g : α → Option β}
    (hle : ∀ a ∈ l, ∀ b, f a = some b → ∃ c, g a = some c ∧ r b c)
    (hperm : (l.filterMap f).Perm (l.filterMap g)) :
    ∀ a ∈ l, ∀ c, g a = some c → ∃ b, f a = some b ∧ r c b := by
  classical
  intro a ha c hc
  -- what either function gives above `c`
  let above (h : α → Option β) (a : α) : Bool := ((h a).map fun b => decide (r c b)).getD false
  have habove {h : α → Option β} {a : α} : above h a = true ↔ ∃ b, h a = some b ∧ r c b := by
    show ((h a).map _).getD false = true ↔ _
    cases h a with
    | none => simp
    | some b => simp
  have hsub : ∀ a ∈ l, above f a = true → above g a = true := by
    intro a ha hf
    obtain ⟨b, hb, hcb⟩ := habove.mp hf
    obtain ⟨d, hd, hbd⟩ := hle a ha b hb
    exact habove.mpr ⟨d, hd, htrans hcb hbd⟩
  have hpart : (l.filter (above g)).filter (above f) = l.filter (above f) := by
    rw [filter_filter]
    refine filter_congr fun a ha => ?_
    rw [Bool.eq_iff_iff, Bool.and_eq_true]
    exact ⟨fun h => h.1, fun h => ⟨h, hsub a ha h⟩⟩
  have hlength : (l.filter (above f)).length = (l.filter (above g)).length := by
    rw [← countP_eq_length_filter, ← countP_eq_length_filter, ← countP_filterMap,
      ← countP_filterMap]
    exact hperm.countP_eq _
  have hall := length_filter_eq_length_iff.mp (hpart ▸ hlength)
  exact habove.mp (hall a (mem_filter.mpr ⟨ha, habove.mpr ⟨c, hc, hrefl c⟩⟩))

/-- Every pair of elements of two lists, through a partial function. -/
def pairJoin (l : List α) (m : List β) (f : α → β → Option γ) : List γ :=
  l.flatMap fun a => m.filterMap (f a)

@[simp] theorem pairJoin_nil (m : List β) (f : α → β → Option γ) : pairJoin [] m f = [] := rfl

theorem pairJoin_cons (a : α) (l : List α) (m : List β) (f : α → β → Option γ) :
    pairJoin (a :: l) m f = m.filterMap (f a) ++ pairJoin l m f := rfl

/-- A join of the pairs that match. -/
theorem pairJoin_filter (l : List α) (m : List β) (p : α → β → Bool) (f : α → β → Option γ) :
    (l.flatMap fun a => (m.filter (p a)).filterMap (f a)) =
      pairJoin l m fun a b => if p a b then f a b else none := by
  rw [pairJoin]
  congr 1
  funext a
  rw [filterMap_filter]

/-- **Either list may be walked outside.** -/
theorem pairJoin_swap (l : List α) (m : List β) (f : α → β → Option γ) :
    (pairJoin l m f).Perm (pairJoin m l fun b a => f a b) := by
  induction l with
  | nil =>
    have hnil : pairJoin m ([] : List α) (fun b a => f a b) = [] :=
      flatMap_eq_nil_iff.mpr fun b _ => rfl
    rw [hnil, pairJoin_nil]
  | cons a l ih =>
    have hcons : pairJoin m (a :: l) (fun b a => f a b) =
        m.flatMap fun b => (f a b).toList ++ l.filterMap fun a => f a b := by
      rw [pairJoin]
      congr 1
      funext b
      rw [filterMap_cons]
      cases f a b <;> rfl
    rw [pairJoin_cons, hcons]
    refine Perm.trans ?_ (flatMap_append_perm m _ _)
    rw [← filterMap_eq_flatMap_toList]
    exact ih.append_left _

theorem map_pairJoin {δ : Type*} (l : List α) (m : List β) (f : α → β → Option γ) (g : γ → δ) :
    (pairJoin l m f).map g = pairJoin l m fun a b => (f a b).map g := by
  rw [pairJoin, map_flatMap, pairJoin]
  congr 1
  funext a
  exact map_filterMap

theorem pairJoin_map {α' β' : Type*} (l : List α) (m : List β) (f : α' → β' → Option γ)
    (g : α → α') (h : β → β') :
    pairJoin (l.map g) (m.map h) f = pairJoin l m fun a b => f (g a) (h b) := by
  rw [pairJoin, flatMap_map, pairJoin]
  congr 1
  funext a
  rw [filterMap_map]
  rfl

theorem pairJoin_eq_filterMap (l : List α) (m : List β) (f : α → β → Option γ) :
    pairJoin l m f = (l ×ˢ m).filterMap fun pair => f pair.1 pair.2 := by
  show pairJoin l m f = (l.flatMap fun a => m.map (Prod.mk a)).filterMap _
  rw [filterMap_flatMap, pairJoin]
  congr 1
  funext a
  rw [filterMap_map]
  rfl

/-- **A join below another one** is a permutation of it only if it is above it too. -/
theorem pairJoin_perm_of_le {r : γ → γ → Prop} (hrefl : ∀ c, r c c)
    (htrans : ∀ {b c d}, r b c → r c d → r b d) {l : List α} {m : List β}
    {f g : α → β → Option γ}
    (hle : ∀ a ∈ l, ∀ b ∈ m, ∀ c, f a b = some c → ∃ d, g a b = some d ∧ r c d)
    (hperm : (pairJoin l m f).Perm (pairJoin l m g)) :
    ∀ a ∈ l, ∀ b ∈ m, ∀ d, g a b = some d → ∃ c, f a b = some c ∧ r d c := by
  rw [pairJoin_eq_filterMap, pairJoin_eq_filterMap] at hperm
  intro a ha b hb
  refine filterMap_perm_of_le hrefl htrans (fun pair hpair => ?_) hperm (a, b)
    (mem_product.mpr ⟨ha, hb⟩)
  obtain ⟨ha, hb⟩ := mem_product.mp hpair
  exact hle pair.1 ha pair.2 hb

end List
