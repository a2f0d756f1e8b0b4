import Aniani.ForMathlib.SortedList
import Mathlib.Data.Finset.Sort
import Mathlib.Data.List.Induction

/-!
# Groups in the order their keys come up

A list is filed under keys, and the keys are taken in the order they first come up. Reading the
groups one after another gives the list back in another order: each element moves up to the first
one with its key. That is the stable sort by the place where the key came up.

## Main definitions

* `List.firstsBy` — the first element of each key, by a set of the keys that came up

## Main results

* `List.pairwise_idxOf_eraseDups` — `eraseDups` keeps the order of the first occurrences
* `List.flatMap_filter_eraseDups` — the groups, one after another, as a sort
* `List.flatMap_filter_eraseDups_of` — some of the groups
* `List.map_sortByKey_firstsBy` — the keys of the first elements of each, in order
-/

namespace List

variable {α κ : Type*} [BEq κ] [LawfulBEq κ]

/-- A last element adds itself, unless it has been there. -/
theorem eraseDups_concat (l : List κ) (a : κ) :
    (l ++ [a]).eraseDups = if a ∈ l then l.eraseDups else l.eraseDups ++ [a] := by
  rw [eraseDups_append]
  by_cases h : a ∈ l <;> simp [removeAll, h, eraseDups_cons]

theorem pairwise_idxOf_eraseDups (l : List κ) :
    l.eraseDups.Pairwise fun a b => l.idxOf a < l.idxOf b := by
  induction l using reverseRecOn with
  | nil => exact Pairwise.nil
  | append_singleton l a ih =>
    -- the places of what has come up stay as they are
    have hstay : l.eraseDups.Pairwise fun x y => (l ++ [a]).idxOf x < (l ++ [a]).idxOf y := by
      refine ih.imp_of_mem fun hx hy hlt => ?_
      rwa [idxOf_append_of_mem (mem_eraseDups.mp hx), idxOf_append_of_mem (mem_eraseDups.mp hy)]
    rw [eraseDups_concat]
    split
    · exact hstay
    · next ha =>
      refine pairwise_append.mpr ⟨hstay, pairwise_singleton _ _, fun x hx y hy => ?_⟩
      obtain rfl := mem_singleton.mp hy
      have hx := mem_eraseDups.mp hx
      have := idxOf_lt_length_of_mem hx
      rw [idxOf_append_of_mem hx, idxOf_append_of_notMem ha]
      omega

theorem nodup_eraseDups (l : List κ) : l.eraseDups.Nodup :=
  (pairwise_idxOf_eraseDups l).imp fun hlt heq => hlt.ne (congrArg (l.idxOf ·) heq)

omit [BEq κ] [LawfulBEq κ] in
/-- Where one of distinct keys has everything, it is everything. -/
theorem flatMap_eq_of_nodup {β : Type*} {ks : List κ} (hn : ks.Nodup) {f : κ → List β} {k : κ}
    (hk : k ∈ ks) (hf : ∀ k' ∈ ks, k' ≠ k → f k' = []) : ks.flatMap f = f k := by
  induction ks with
  | nil => exact absurd hk not_mem_nil
  | cons k' ks ih =>
    obtain ⟨hnot, hn⟩ := nodup_cons.mp hn
    rw [flatMap_cons]
    rcases mem_cons.mp hk with rfl | hmem
    · have hrest : ks.flatMap f = [] := flatMap_eq_nil_iff.mpr fun k' hk' =>
        hf k' (mem_cons_of_mem _ hk') fun heq => hnot (heq ▸ hk')
      rw [hrest, append_nil]
    · rw [hf k' mem_cons_self fun heq => hnot (heq ▸ hmem), nil_append]
      exact ih hn hmem fun k'' hk'' => hf k'' (mem_cons_of_mem _ hk'')

/-- **The groups in the order their keys come up** are the list, sorted by where the key came up. -/
theorem flatMap_filter_eraseDups (key : α → κ) (l : List α) :
    ((l.map key).eraseDups.flatMap fun k => l.filter fun a => key a == k) =
      l.sortByKey fun a => (l.map key).idxOf (key a) := by
  have hcover : ∀ a ∈ l, key a ∈ (l.map key).eraseDups := fun a ha =>
    mem_eraseDups.mpr (mem_map_of_mem ha)
  have hinj : ∀ a ∈ l, ∀ b, (l.map key).idxOf (key a) = (l.map key).idxOf (key b) →
      key a = key b := fun a ha b => (idxOf_inj (mem_map_of_mem ha)).mp
  have hsorted : SortedBy (fun a => (l.map key).idxOf (key a))
      ((l.map key).eraseDups.flatMap fun k => l.filter fun a => key a == k) := by
    have hgroup : ∀ {a k}, a ∈ (l.filter fun a => key a == k) → key a = k := fun h =>
      eq_of_beq (mem_filter.mp h).2
    refine pairwise_flatMap.mpr ⟨fun k _ => pairwise_of_forall_mem_list fun a ha b hb => ?_, ?_⟩
    · dsimp only
      rw [hgroup ha, hgroup hb]
    · refine (pairwise_idxOf_eraseDups _).imp fun hlt a ha b hb => ?_
      dsimp only
      rw [hgroup ha, hgroup hb]
      exact hlt.le
  refine hsorted.eq_of_filter_eq (sortedBy_sortByKey _ _) fun n => ?_
  rw [filter_sortByKey, filter_flatMap]
  by_cases hex : ∃ a ∈ l, (l.map key).idxOf (key a) = n
  · obtain ⟨a, ha, rfl⟩ := hex
    rw [flatMap_eq_of_nodup (nodup_eraseDups _) (hcover a ha), filter_filter]
    · refine filter_congr fun b _ => ?_
      rw [Bool.and_eq_left_iff_imp]
      intro hb
      rw [hinj a ha b (of_decide_eq_true hb).symm, beq_self_eq_true]
    · intro k _ hne
      refine filter_eq_nil_iff.mpr fun b hb heq => hne ?_
      rw [← eq_of_beq (mem_filter.mp hb).2, hinj a ha b (of_decide_eq_true heq).symm]
  · have hnone : ∀ a ∈ l, ¬ decide ((l.map key).idxOf (key a) = n) = true := fun a ha h =>
      hex ⟨a, ha, of_decide_eq_true h⟩
    rw [filter_eq_nil_iff.mpr hnone]
    exact flatMap_eq_nil_iff.mpr fun k _ => filter_eq_nil_iff.mpr fun a ha =>
      hnone a (mem_filter.mp ha).1

/-- The groups of some of the keys are the part of the list with these keys, sorted alike. -/
theorem flatMap_filter_eraseDups_of (key : α → κ) (p : κ → Bool) (l : List α) :
    (((l.map key).eraseDups.filter p).flatMap fun k => l.filter fun a => key a == k) =
      (l.filter fun a => p (key a)).sortByKey fun a => (l.map key).idxOf (key a) := by
  -- a group is in the part as a whole or not at all
  have hgroup : ∀ k, ((l.filter fun a => key a == k).filter fun a => p (key a)) =
      if p k then l.filter fun a => key a == k else [] := by
    intro k
    split
    · next hk =>
      refine filter_eq_self.mpr fun a ha => ?_
      rwa [eq_of_beq (mem_filter.mp ha).2]
    · next hk =>
      refine filter_eq_nil_iff.mpr fun a ha => ?_
      rwa [eq_of_beq (mem_filter.mp ha).2]
  have hparts : ∀ ks : List κ, ((ks.filter p).flatMap fun k => l.filter fun a => key a == k) =
      ks.flatMap fun k => (l.filter fun a => key a == k).filter fun a => p (key a) := by
    intro ks
    induction ks with
    | nil => rfl
    | cons k ks ih =>
      rw [filter_cons, flatMap_cons, hgroup, ← ih]
      split <;> rfl
  rw [hparts, ← filter_flatMap, flatMap_filter_eraseDups, filter_sortByKey_comm]

/-! ### The first of each key -/

section Firsts

variable {ω : Type*} [DecidableEq ω]

/-- The elements whose keys have not come up before. -/
def firstsBy (key : α → ω) (seen : List ω) : List α → List α
  | [] => []
  | a :: l => if key a ∈ seen then firstsBy key seen l else a :: firstsBy key (key a :: seen) l

theorem firstsBy_sublist (key : α → ω) (seen : List ω) (l : List α) :
    (firstsBy key seen l).Sublist l := by
  induction l generalizing seen with
  | nil => exact Sublist.refl _
  | cons a l ih =>
    rw [firstsBy]
    split
    · exact (ih seen).cons a
    · exact (ih (key a :: seen)).cons_cons a

/-- Every key comes up, but for those that had come up before. -/
theorem mem_map_firstsBy {key : α → ω} {seen : List ω} {l : List α} {k : ω} :
    k ∈ (firstsBy key seen l).map key ↔ k ∈ l.map key ∧ k ∉ seen := by
  induction l generalizing seen with
  | nil => simp [firstsBy]
  | cons a l ih =>
    rw [firstsBy]
    split
    · next ha =>
      rw [ih, map_cons, mem_cons]
      refine and_congr_left fun hk => (or_iff_right ?_).symm
      rintro rfl
      exact hk ha
    · next ha =>
      rw [map_cons, map_cons, mem_cons, mem_cons, ih, mem_cons]
      by_cases hk : k = key a
      · simp [hk, ha]
      · simp [hk]

theorem nodup_map_firstsBy (key : α → ω) (seen : List ω) (l : List α) :
    ((firstsBy key seen l).map key).Nodup := by
  induction l generalizing seen with
  | nil => exact nodup_nil
  | cons a l ih =>
    rw [firstsBy]
    split
    · exact ih seen
    · rw [map_cons, nodup_cons]
      refine ⟨fun hmem => (mem_map_firstsBy.mp hmem).2 mem_cons_self, ih _⟩

end Firsts

/-- A sorted list without repetition is the sorted set. -/
theorem sortByKey_id_eq_sort {ω : Type*} [LinearOrder ω] {l : List ω} (h : l.Nodup) :
    l.sortByKey id = l.toFinset.sort (· ≤ ·) := by
  have hsorted : (l.sortByKey id).Pairwise (· ≤ ·) := sortedBy_sortByKey id l
  rw [← toFinset_eq_of_perm _ _ (sortByKey_perm id l)]
  exact ((toFinset_sort (· ≤ ·) (nodup_sortByKey.mpr h)).mpr hsorted).symm

/-- **The keys of the first elements of each, in order**, are the sorted set of the keys. -/
theorem map_sortByKey_firstsBy {ω : Type*} [LinearOrder ω] (key : α → ω) (l : List α) :
    ((firstsBy key [] l).sortByKey key).map key = (l.map key).toFinset.sort (· ≤ ·) := by
  have hmap : ((firstsBy key [] l).sortByKey key).map key =
      ((firstsBy key [] l).map key).sortByKey id := (sortByKey_map id key _).symm
  rw [hmap, sortByKey_id_eq_sort (nodup_map_firstsBy key [] l)]
  congr 1
  ext k
  rw [mem_toFinset, mem_toFinset, mem_map_firstsBy, and_iff_left not_mem_nil]

end List
