import Aniani.ForMathlib.IterOrder
import Mathlib.Algebra.BigOperators.Group.Finset.Basic

/-!
# Tallies

A tally is a finite map that a loop adds to: the value of a key goes up by an amount, from zero
where the key is new. What it says of a key in the end is the sum of the amounts added under it,
whatever the order they came in.

## Main definitions

* `Finmap.addAt`, `Finmap.tally`

## Main results

* `Finmap.lookup_tally_flatMap` — the tally of what is found in the elements of a list
* `IterOrder.sum_map_keys` — a sum along a walk is the sum over the keys
-/

namespace Finmap

variable {ι K V : Type*} [DecidableEq K] [AddCommMonoid V]

/-- Add to the value of a key. -/
def addAt (m : Finmap fun _ : K => V) (k : K) (v : V) : Finmap fun _ : K => V :=
  m.insert k ((m.lookup k).getD 0 + v)

/-- The amounts of a list of pairs, added up by key. -/
def tally (l : List (K × V)) : Finmap fun _ : K => V :=
  l.foldl (fun m p => m.addAt p.1 p.2) ∅

/-- **A tally says the sum.** -/
theorem lookup_tally (l : List (K × V)) (k : K) :
    ((tally l).lookup k).getD 0 = ((l.filter fun p => decide (p.1 = k)).map Prod.snd).sum := by
  induction l using List.reverseRecOn with
  | nil => rfl
  | append_singleton l p ih =>
    have hstep : tally (l ++ [p]) = (tally l).addAt p.1 p.2 := by
      rw [tally, List.foldl_append]
      rfl
    rw [hstep, addAt, lookup_insert_eq_ite, List.filter_append, List.map_append, List.sum_append,
      ← ih]
    by_cases hk : k = p.1
    · subst hk
      simp
    · simp [hk, Ne.symm hk]

/-- The tally of what is found in the elements of a list. -/
theorem lookup_tally_flatMap (l : List ι) (f : ι → List (K × V)) (k : K) :
    ((tally (l.flatMap f)).lookup k).getD 0 =
      (l.map fun i => (((f i).filter fun p => decide (p.1 = k)).map Prod.snd).sum).sum := by
  rw [lookup_tally]
  induction l with
  | nil => rfl
  | cons i l ih =>
    rw [List.flatMap_cons, List.filter_append, List.map_append, List.sum_append, ih, List.map_cons,
      List.sum_cons]

end Finmap

namespace IterOrder

variable {K β V : Type*} [AddCommMonoid V]

/-- A sum along a walk is the sum over the keys. -/
theorem sum_map_keys (it : IterOrder K) (m : Finmap fun _ : K => β) (f : K → V) :
    ((it.keys m).map f).sum = ∑ k ∈ m.keys, f k := by
  classical
  rw [← List.sum_toFinset f (it.nodup_keys m)]
  congr 1
  ext k
  simp [mem_keys, Finmap.mem_keys]

end IterOrder
