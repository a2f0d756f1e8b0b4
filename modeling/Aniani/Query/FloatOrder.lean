import Aniani.ForMathlib.SortedList
import Aniani.Query.Binary64

/-!
# The order of floating-point numbers

Floating-point numbers other than `NaN` lie on the extended line, and `<` compares their places
there. A sort by numbers with a `NaN` among them may leave anything unsorted, as `NaN` counts as
equal to whatever it is compared with. Without one, it is the stable sort by the places.

## Main definitions

* `ExtendedOrder` — the places of the numbers

## Main results

* `sortedBy_eq_sortByKey` — a sort by numbers
* `filter_sortedBy` — a part of the sorted list
-/

namespace Aniani

namespace FloatOps

/-- Numbers other than `NaN` are compared by their places on the extended line. -/
class ExtendedOrder (F64 : Type) [FloatOps F64] where
  place : F64 → WithBot (WithTop ℚ)
  lt_eq_true_iff : ∀ {a b : F64}, isNan a = false → isNan b = false →
    (lt a b = true ↔ place a < place b)

variable {F64 α β : Type} [FloatOps F64]

/-- Elements that correspond are sorted alike. -/
theorem map_sortedBy (key : β → F64) (f : α → β) (l : List α) :
    (sortedBy (fun a => key (f a)) l).map f = sortedBy key (l.map f) :=
  List.map_insertionSort _ _ f l fun _ _ _ _ => Iff.rfl

theorem mem_sortedBy {key : α → F64} {l : List α} {a : α} : a ∈ sortedBy key l ↔ a ∈ l :=
  List.mem_insertionSort _

section Order

variable [ExtendedOrder F64] {key : α → F64} {l : List α}

/-- **A sort by numbers**, none of them `NaN`. -/
theorem sortedBy_eq_sortByKey (h : ∀ a ∈ l, isNan (key a) = false) :
    sortedBy key l = l.sortByKey fun a => ExtendedOrder.place (key a) := by
  have hmap := List.map_insertionSort (fun a b => lt (key b) (key a) = false)
    (fun a b => ExtendedOrder.place (key a) ≤ ExtendedOrder.place (key b)) id l
    fun a ha b hb => by
      rw [← Bool.not_eq_true, ExtendedOrder.lt_eq_true_iff (h b hb) (h a ha), not_lt]
      rfl
  rwa [List.map_id, List.map_id] at hmap

/-- The same, the greatest first. -/
theorem sortedByDesc_eq_sortByKey (h : ∀ a ∈ l, isNan (key a) = false) :
    sortedByDesc key l = l.sortByKey fun a => OrderDual.toDual (ExtendedOrder.place (key a)) := by
  have hmap := List.map_insertionSort (fun a b => lt (key a) (key b) = false)
    (fun a b => OrderDual.toDual (ExtendedOrder.place (key a)) ≤
      OrderDual.toDual (ExtendedOrder.place (key b))) id l
    fun a ha b hb => by
      rw [← Bool.not_eq_true, ExtendedOrder.lt_eq_true_iff (h a ha) (h b hb), not_lt]
      rfl
  rwa [List.map_id, List.map_id] at hmap

/-- **A part of the sorted list** is the part, sorted. -/
theorem filter_sortedBy (h : ∀ a ∈ l, isNan (key a) = false) (p : α → Bool) :
    (sortedBy key l).filter p = sortedBy key (l.filter p) := by
  rw [sortedBy_eq_sortByKey h, List.filter_sortByKey_comm,
    sortedBy_eq_sortByKey fun a ha => h a (List.mem_of_mem_filter ha)]

end Order

end FloatOps

/-! ### To evaluate with -/

instance : FloatOps.ExtendedOrder ℤ where
  place a := ((a : ℚ) : WithTop ℚ)
  lt_eq_true_iff {a b} _ _ := by
    rw [WithBot.coe_lt_coe, WithTop.coe_lt_coe, Int.cast_lt]
    exact decide_eq_true_iff

instance : FloatOps.ExtendedOrder Double where
  place a := match a with
    | .finite q _ => ((q : ℚ) : WithTop ℚ)
    | .infinite true => ⊥
    | .infinite false => (⊤ : WithTop ℚ)
    | .nan => ⊥
  lt_eq_true_iff {a b} ha hb := by
    cases a with
    | nan => exact absurd ha (by simp [FloatOps.isNan])
    | finite x hx =>
      cases b with
      | nan => exact absurd hb (by simp [FloatOps.isNan])
      | finite y hy =>
        rw [WithBot.coe_lt_coe, WithTop.coe_lt_coe]
        exact decide_eq_true_iff
      | infinite t =>
        cases t with
        | true => simp [FloatOps.lt, Double.lt]
        | false => exact iff_of_true rfl (WithBot.coe_lt_coe.mpr (WithTop.coe_lt_top x))
    | infinite s =>
      cases b with
      | nan => exact absurd hb (by simp [FloatOps.isNan])
      | finite y hy => cases s <;> simp [FloatOps.lt, Double.lt]
      | infinite t => cases s <;> cases t <;> simp [FloatOps.lt, Double.lt]

end Aniani
