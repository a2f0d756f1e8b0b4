import Aniani.ForMathlib.Finmap
import Mathlib.Algebra.GroupWithZero.Nat
import Mathlib.Data.List.Sort

/-!
# Iteration in an unspecified order

A hash map is walked in an order its specification leaves open, and two walks of equal maps need
not agree. A function that walks one therefore takes the order as an argument: an `IterOrder`
lists every finite set of keys, each key once. Quantifying over the argument quantifies over every
order the map may be walked in.

## Main definitions

* `IterOrder` — a listing of every finite set of keys
* `IterOrder.keys` — the keys of a map, as one walk visits them
* `IterOrder.ascending` — the increasing order, for evaluation

## Main results

* `IterOrder.sum_map_lookup` — a sum over the values, along a walk
-/

/-- One listing, without repetition, of every finite set of keys. -/
structure IterOrder (K : Type*) where
  order : Finset K → List K
  nodup : ∀ s, (order s).Nodup
  mem_order : ∀ {s k}, k ∈ order s ↔ k ∈ s

namespace IterOrder

variable {K β : Type*}

/-- The keys of a map in the order of one walk. -/
def keys (it : IterOrder K) (m : Finmap fun _ : K => β) : List K := it.order m.keys

theorem nodup_keys (it : IterOrder K) (m : Finmap fun _ : K => β) : (it.keys m).Nodup :=
  it.nodup m.keys

theorem mem_keys {it : IterOrder K} {m : Finmap fun _ : K => β} {k : K} :
    k ∈ it.keys m ↔ k ∈ m :=
  it.mem_order.trans Finmap.mem_keys

/-- A walk visits each key once. -/
theorem length_keys [DecidableEq K] (it : IterOrder K) (m : Finmap fun _ : K => β) :
    (it.keys m).length = m.keys.card := by
  rw [← List.toFinset_card_of_nodup (it.nodup_keys m)]
  congr 1
  ext k
  rw [List.mem_toFinset, mem_keys, Finmap.mem_keys]

/-- **A sum over all values is a sum along a walk.** -/
theorem sum_map_lookup [DecidableEq K] (it : IterOrder K) (f : β → ℕ) (m : Finmap fun _ : K => β) :
    ((it.keys m).map fun k => ((m.lookup k).map f).getD 0).sum = m.total f := by
  have hperm : (it.keys m : Multiset K) = m.entries.map Sigma.fst :=
    (Multiset.Nodup.ext (Multiset.coe_nodup.mpr (it.nodup_keys m)) m.keys.nodup).mpr fun k =>
      mem_keys.trans Finmap.mem_keys.symm
  have hvalue : ∀ e ∈ m.entries, ((m.lookup e.1).map f).getD 0 = f e.2 := by
    intro e he
    have hlook : m.lookup e.1 = some e.2 := Finmap.lookup_eq_some_iff.mpr he
    rw [hlook]
    rfl
  rw [← Multiset.sum_coe, ← Multiset.map_coe, hperm, Multiset.map_map, Finmap.total]
  exact congrArg Multiset.sum (Multiset.map_congr rfl hvalue)

/-- Two walks of one set visit the same keys. -/
theorem order_perm (it it' : IterOrder K) (s : Finset K) : (it.order s).Perm (it'.order s) :=
  (List.perm_ext_iff_of_nodup (it.nodup s) (it'.nodup s)).mpr fun _ =>
    it.mem_order.trans it'.mem_order.symm

/-- A walk of a set of one key. -/
theorem order_singleton (it : IterOrder K) (k : K) : it.order {k} = [k] := by
  have hperm : (it.order {k}).Perm [k] :=
    (List.perm_ext_iff_of_nodup (it.nodup _) (List.nodup_singleton k)).mpr fun _ =>
      it.mem_order.trans (Finset.mem_singleton.trans List.mem_singleton.symm)
  exact List.perm_singleton.mp hperm

/-- The increasing order. -/
def ascending (K : Type*) [LinearOrder K] : IterOrder K where
  order s := s.1.liftOn (fun l => l.insertionSort (· ≤ ·)) fun l₁ l₂ h =>
    ((List.perm_insertionSort _ l₁).trans (h.trans (List.perm_insertionSort _ l₂).symm)).eq_of_pairwise
      (fun _ _ _ _ => le_antisymm) (List.pairwise_insertionSort _ l₁)
      (List.pairwise_insertionSort _ l₂)
  nodup s := by
    obtain ⟨⟨l⟩, hl⟩ := s
    exact (List.perm_insertionSort _ l).nodup_iff.mpr hl
  mem_order {s k} := by
    obtain ⟨⟨l⟩, hl⟩ := s
    exact (List.perm_insertionSort (· ≤ ·) l).mem_iff

end IterOrder
