import Mathlib.Algebra.Order.Group.Defs
import Mathlib.Algebra.BigOperators.Group.List.Basic
import Mathlib.Algebra.Ring.Nat
import Mathlib.Data.List.Chain

/-!
# Closed windows along an axis

A window of length `r` is laid back from each of some points that are `r` apart, its two ends
included. Side by side the windows cover the axis from the start of the first to the end of the
last; neighbours have an end in common, and nothing else.

## Main results

* `List.countP_window` — how many of the windows a point lies in
* `List.sum_window` — a sum over the windows, as a sum over the points
-/

namespace List

variable {α β : Type*}

/-! ### Sums over windows -/

theorem sum_map_filter (p : α → Bool) (w : α → ℕ) (l : List α) :
    ((l.filter p).map w).sum = (l.map fun a => if p a then w a else 0).sum := by
  induction l with
  | nil => rfl
  | cons a l ih => by_cases ha : p a = true <;> simp [ha, ih]

/-- A sum over the windows counts each element as often as there are windows it lies in. -/
theorem sum_map_sum_filter (p : β → α → Bool) (w : α → ℕ) (ts : List β) (l : List α) :
    (ts.map fun t => ((l.filter (p t)).map w).sum).sum =
      (l.map fun a => ts.countP (fun t => p t a) * w a).sum := by
  induction ts with
  | nil => simp
  | cons t ts ih =>
    rw [map_cons, sum_cons, ih, sum_map_filter, ← sum_map_add]
    refine congrArg sum (map_congr_left fun a _ => ?_)
    by_cases ha : p t a = true
    · rw [if_pos ha, countP_cons, if_pos ha, Nat.succ_mul, Nat.add_comm]
    · rw [if_neg ha, countP_cons, if_neg ha, Nat.zero_add, Nat.add_zero]

/-! ### Points that are evenly spaced -/

section Windows

variable [AddCommGroup α] [LinearOrder α] [IsOrderedAddMonoid α] {r x t : α} {ts : List α}

theorem le_of_mem_of_isChain_add (h : (t :: ts).IsChain fun a b => b = a + r) (hr : 0 ≤ r) :
    ∀ s ∈ t :: ts, t ≤ s := by
  induction ts generalizing t with
  | nil => simp
  | cons t' ts ih =>
    obtain ⟨ht', hchain⟩ := isChain_cons_cons.mp h
    have hle : t ≤ t' := ht' ▸ le_add_of_nonneg_right hr
    intro s hs
    obtain rfl | hs := mem_cons.mp hs
    · exact le_rfl
    · exact hle.trans (ih hchain s hs)

/-- **How many windows a point lies in**: one, if it is between the start of the first and the end
of the last, and another one if it is at the end of a window that is not the last. -/
theorem countP_window (h : (t :: ts).IsChain fun a b => b = a + r) (hr : ts ≠ [] → 0 < r) (x : α) :
    (t :: ts).countP (fun s => decide (s - r ≤ x ∧ x ≤ s)) =
      (if t - r ≤ x ∧ x ≤ (t :: ts).getLast (cons_ne_nil t ts) then 1 else 0) +
        if x ∈ (t :: ts).dropLast then 1 else 0 := by
  induction ts generalizing t with
  | nil =>
    rw [countP_singleton, getLast_singleton, dropLast_singleton, if_neg not_mem_nil, Nat.add_zero]
    simp only [decide_eq_true_eq]
  | cons t' ts ih =>
    obtain ⟨ht', hchain⟩ := isChain_cons_cons.mp h
    have hpos : 0 < r := hr (cons_ne_nil t' ts)
    have hlt : t < t' := ht' ▸ lt_add_of_pos_right t hpos
    have hstart : t' - r = t := by rw [ht', add_sub_cancel_right]
    have hlast : t < (t' :: ts).getLast (cons_ne_nil t' ts) :=
      hlt.trans_le (le_of_mem_of_isChain_add hchain hpos.le _ (getLast_mem _))
    have hlater : ∀ s ∈ (t' :: ts).dropLast, t < s := by
      intro s hs
      exact hlt.trans_le (le_of_mem_of_isChain_add hchain hpos.le s (dropLast_subset _ hs))
    rw [countP_cons, ih hchain fun _ => hpos, hstart, getLast_cons (cons_ne_nil t' ts),
      dropLast_cons_of_ne_nil (cons_ne_nil t' ts)]
    -- the first window ends at `t`, where the others begin
    obtain hx | rfl | hx := lt_trichotomy x t
    · have hnot : x ∉ (t' :: ts).dropLast := fun hmem => absurd (hlater x hmem) (not_lt.mpr hx.le)
      simp [hx.le, hx.not_ge, hx.ne, hnot, (hx.trans hlast).le]
    · have hnot : x ∉ (t' :: ts).dropLast := fun hmem => absurd (hlater x hmem) (lt_irrefl x)
      simp [hlast.le, hnot, hpos.le]
    · have hmem : t - r ≤ x := (sub_le_self t hpos.le).trans hx.le
      simp [hx.le, hx.not_ge, hx.ne', hmem]

/-- **A sum over the windows** of evenly spaced points: over the elements from the start of the
first to the end of the last, and once more over those at the end of a window that is not the
last. -/
theorem sum_window {ε : Type*} (h : (t :: ts).IsChain fun a b => b = a + r) (hr : ts ≠ [] → 0 < r)
    (key : ε → α) (w : ε → ℕ) (l : List ε) :
    ((t :: ts).map fun s =>
        ((l.filter fun e => decide (s - r ≤ key e ∧ key e ≤ s)).map w).sum).sum =
      ((l.filter fun e => decide (t - r ≤ key e ∧
        key e ≤ (t :: ts).getLast (cons_ne_nil t ts))).map w).sum +
      ((l.filter fun e => decide (key e ∈ (t :: ts).dropLast)).map w).sum := by
  rw [sum_map_sum_filter, sum_map_filter, sum_map_filter, ← sum_map_add]
  refine congrArg sum (map_congr_left fun e _ => ?_)
  rw [countP_window h hr, Nat.add_mul, ite_mul, ite_mul, Nat.one_mul, Nat.zero_mul]
  simp only [decide_eq_true_eq]

end Windows

end List
