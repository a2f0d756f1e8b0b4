import Mathlib.Data.List.Perm.Basic

/-!
# Permutations, key by key

Two lists are permutations of each other exactly when their parts with one key are, for every key.
For two lists made of one list of indices by two partial functions, each value with the key of its
index, that says which values have which keys; when the keys are distinct the two functions have to
be equal.

## Main results

* `List.perm_iff_filter_key`
* `List.perm_keyed_iff`, `List.sameValues_iff`
-/

namespace List

variable {ι α κ : Type*} [DecidableEq κ]

theorem perm_iff_filter_key (key : α → κ) {l l' : List α} :
    l.Perm l' ↔ ∀ k, (l.filter fun a => key a = k).Perm (l'.filter fun a => key a = k) := by
  classical
  refine ⟨fun h k => h.filter _, fun h => perm_iff_count.mpr fun a => ?_⟩
  have hcount := perm_iff_count.mp (h (key a)) a
  rwa [count_filter (by simp), count_filter (by simp)] at hcount

/-- The values that two partial functions have under each key are the same. -/
def SameValues (key : ι → κ) (indices : List ι) (g h : ι → Option α) : Prop :=
  ∀ k, ((indices.filter fun i => key i = k).filterMap g).Perm
    ((indices.filter fun i => key i = k).filterMap h)

/-- **Keyed values**, through a function that is injective and shows the key. -/
theorem perm_keyed_iff {β : Type*} {key : ι → κ} {indices : List ι} {g h : ι → Option α}
    {f : κ → α → β} (hf : ∀ k, Function.Injective (f k)) {keyOf : β → κ}
    (hkey : ∀ k a, keyOf (f k a) = k) :
    (indices.filterMap fun i => (g i).map (f (key i))).Perm
        (indices.filterMap fun i => (h i).map (f (key i))) ↔
      SameValues key indices g h := by
  have hpart (g : ι → Option α) (k : κ) :
      (indices.filterMap fun i => (g i).map (f (key i))).filter (fun b => keyOf b = k) =
        ((indices.filter fun i => key i = k).filterMap g).map (f k) := by
    rw [filter_filterMap, filterMap_filter, map_filterMap]
    refine filterMap_congr fun i _ => ?_
    cases hg : g i with
    | none => simp
    | some a =>
      by_cases hk : key i = k
      · simp [hkey, hk]
      · simp [hkey, hk]
  rw [perm_iff_filter_key keyOf]
  refine forall_congr' fun k => ?_
  rw [hpart, hpart]
  exact map_perm_map_iff (hf k)

/-- With distinct keys the two functions have the same values. -/
theorem sameValues_iff {key : ι → κ} {indices : List ι} {g h : ι → Option α}
    (hinj : ∀ i ∈ indices, ∀ j ∈ indices, (g i).isSome ∨ (h i).isSome →
      (g j).isSome ∨ (h j).isSome → key i = key j → i = j) :
    SameValues key indices g h ↔ ∀ i ∈ indices, g i = h i := by
  constructor
  · intro hsame i hi
    have hmem : ∀ a, g i = some a ↔ h i = some a := by
      intro a
      have hi' : i ∈ indices.filter fun j => key j = key i := mem_filter.mpr ⟨hi, by simp⟩
      constructor
      · intro hg
        obtain ⟨j, hj, hh⟩ := mem_filterMap.mp
          ((hsame (key i)).mem_iff.mp (mem_filterMap.mpr ⟨i, hi', hg⟩))
        obtain ⟨hj, hkey⟩ := mem_filter.mp hj
        obtain rfl := hinj j hj i hi (.inr (by rw [hh]; rfl)) (.inl (by rw [hg]; rfl))
          (of_decide_eq_true hkey)
        exact hh
      · intro hh
        obtain ⟨j, hj, hg⟩ := mem_filterMap.mp
          ((hsame (key i)).mem_iff.mpr (mem_filterMap.mpr ⟨i, hi', hh⟩))
        obtain ⟨hj, hkey⟩ := mem_filter.mp hj
        obtain rfl := hinj j hj i hi (.inl (by rw [hg]; rfl)) (.inr (by rw [hh]; rfl))
          (of_decide_eq_true hkey)
        exact hg
    exact Option.ext hmem
  · intro heq k
    rw [filterMap_congr fun i hi => heq i (mem_of_mem_filter hi)]

end List
