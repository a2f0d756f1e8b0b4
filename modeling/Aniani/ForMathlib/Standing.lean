import Aniani.ForMathlib.SortedList
import Mathlib.Data.Prod.Lex

/-!
# The least elements of a list

The first elements of a list that is sorted by a key are the ones with few others ahead of them,
where an element is ahead of another if its key is less, or is the same and it comes earlier. What
is ahead of an element can be counted without sorting anything.

## Main definitions

* `List.ahead` — how many elements are ahead of one

## Main results

* `List.take_sortByKey_perm` — the first `k` are those with fewer than `k` ahead
-/

namespace List

variable {α κ : Type*}

/-- In a list in strict order the elements ahead of one are those before it. -/
theorem take_eq_filter_countP {r : α → α → Bool} {l : List α} (hirrefl : ∀ a ∈ l, r a a = false)
    (h : l.Pairwise fun a b => r a b = true ∧ r b a = false) (k : ℕ) :
    l.take k = l.filter fun a => decide (l.countP (fun b => r b a) < k) := by
  induction l generalizing k with
  | nil => rw [take_nil, filter_nil]
  | cons a l ih =>
    obtain ⟨hhead, hl⟩ := pairwise_cons.mp h
    rw [forall_mem_cons] at hirrefl
    have hfirst : (a :: l).countP (fun b => r b a) = 0 := by
      refine countP_eq_zero.mpr (forall_mem_cons.mpr ⟨?_, fun b hb => ?_⟩)
      · rw [hirrefl.1]; exact Bool.false_ne_true
      · rw [(hhead b hb).2]; exact Bool.false_ne_true
    have hrest : ∀ b ∈ l, (a :: l).countP (fun c => r c b) = l.countP (fun c => r c b) + 1 :=
      fun b hb => countP_cons_of_pos (hhead b hb).1
    cases k with
    | zero => simp
    | succ k =>
      rw [take_succ_cons, filter_cons_of_pos (by rw [hfirst]; simp), ih hirrefl.2 hl]
      exact congrArg _ (filter_congr fun b hb => by rw [hrest b hb]; simp)

variable [LinearOrder κ]

/-- How many elements of the list are ahead of one at a place: those with a lesser key, and of those
with the same key the earlier ones. -/
def ahead (key : α → κ) (l : List α) (p : α × ℕ) : ℕ :=
  l.zipIdx.countP fun q => key q.1 < key p.1 ∨ key q.1 = key p.1 ∧ q.2 < p.2

/-- **A stable sort** puts no element after one that it is ahead of. -/
theorem pairwise_sortByKey_zipIdx (key : α → κ) (l : List α) :
    (l.zipIdx.sortByKey fun p => key p.1).Pairwise fun p q =>
      key p.1 < key q.1 ∨ key p.1 = key q.1 ∧ p.2 < q.2 := by
  have hsorted := sortedBy_sortByKey (fun p : α × ℕ => key p.1) l.zipIdx
  have hplaces : l.zipIdx.Pairwise fun p q => p.2 < q.2 := by
    rw [← pairwise_map, zipIdx_map_snd]
    exact pairwise_lt_range'
  -- the elements of one key are in the order of their places
  have hties (k : κ) : ((l.zipIdx.sortByKey fun p => key p.1).filter fun p =>
      decide (key p.1 = k)).Pairwise fun p q => p.2 < q.2 := by
    rw [filter_sortByKey]
    exact hplaces.sublist filter_sublist
  refine pairwise_iff_forall_sublist.mpr fun {p q} hpq => ?_
  rcases (pairwise_iff_forall_sublist.mp hsorted hpq).lt_or_eq with hlt | heq
  · exact .inl hlt
  · refine .inr ⟨heq, pairwise_iff_forall_sublist.mp (hties (key q.1)) ?_⟩
    have hfilter := hpq.filter fun p => decide (key p.1 = key q.1)
    rwa [filter_cons_of_pos (by simpa using heq), filter_cons_of_pos (by simp), filter_nil]
      at hfilter

/-- **The first elements of the sorted list** are those with few ahead of them. -/
theorem take_sortByKey_perm (key : α → κ) (l : List α) (k : ℕ) :
    ((l.sortByKey key).take k).Perm
      ((l.zipIdx.filter fun p => l.ahead key p < k).map Prod.fst) := by
  have hsort : l.sortByKey key = (l.zipIdx.sortByKey fun p => key p.1).map Prod.fst := by
    have hmap := sortByKey_map key Prod.fst l.zipIdx
    rwa [zipIdx_map_fst] at hmap
  rw [hsort, ← map_take, take_eq_filter_countP (r := fun p q =>
    decide (key p.1 < key q.1 ∨ key p.1 = key q.1 ∧ p.2 < q.2))]
  · refine (((sortByKey_perm _ _).filter _).trans (.of_eq ?_)).map _
    refine filter_congr fun p _ => ?_
    rw [(sortByKey_perm _ _).countP_eq]
    rfl
  · intro p _
    simp
  · refine (pairwise_sortByKey_zipIdx key l).imp fun {p q} h => ⟨by simpa using h, ?_⟩
    rw [decide_eq_false_iff_not]
    rintro (hlt | ⟨heq, hlt⟩) <;> rcases h with hlt' | ⟨heq', hlt'⟩
    · exact lt_asymm hlt hlt'
    · exact hlt.ne heq'.symm
    · exact hlt'.ne heq.symm
    · exact lt_asymm hlt hlt'

end List
