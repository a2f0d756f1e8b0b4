import Mathlib.Data.Finmap
import Mathlib.Algebra.BigOperators.Group.Finset.Basic
import Mathlib.Algebra.BigOperators.Group.Multiset.Basic
import Mathlib.Algebra.Order.BigOperators.Group.Finset
import Mathlib.Algebra.Order.Group.Multiset
import Mathlib.Data.Multiset.Lattice
import Mathlib.Order.Lattice.Nat
import Mathlib.Tactic.Tauto

/-!
# Finite maps with plain values

Mathlib's `Finmap` is the extensional finite map; this file adds what a program that keeps its
state in hash maps needs of it when the value type does not depend on the key: reading after a
write as one `if`, filtering by key and value, the sum of a measure over all values, and the largest
of the numbers found in the values.

## Main definitions

* `Finmap.retain` — keep the bindings that pass a test
* `Finmap.total` — the sum of a measure over the values
* `Finmap.flatValues` — what is found in the values, in no order

## Main results

* `Finmap.lookup_insert_eq_ite`, `Finmap.lookup_erase_eq_ite`, `Finmap.lookup_retain_eq_some`
* `Finmap.lookup_foldl_insert` — a list written into a map
* `Finmap.total_insert`, `Finmap.total_erase` — how the sum moves with one binding
* `Finmap.mem_flatValues`, `Finmap.flatValues_of_lookup_eq_bind`, `Finmap.flatValues_insert_of_perm`
-/

namespace Finmap

variable {α β : Type*} [DecidableEq α]

/-- **Read after write**, as one equation. -/
theorem lookup_insert_eq_ite (s : Finmap fun _ : α => β) (a a' : α) (b : β) :
    (s.insert a b).lookup a' = if a' = a then some b else s.lookup a' := by
  by_cases h : a' = a
  · subst h; simp
  · rw [lookup_insert_of_ne s h, if_neg h]

theorem lookup_erase_eq_ite (s : Finmap fun _ : α => β) (a a' : α) :
    (s.erase a).lookup a' = if a' = a then none else s.lookup a' := by
  by_cases h : a' = a
  · subst h; simp
  · rw [lookup_erase_ne h, if_neg h]

theorem erase_of_notMem {s : Finmap fun _ : α => β} {a : α} (h : a ∉ s) : s.erase a = s := by
  refine ext_lookup fun x => ?_
  rw [lookup_erase_eq_ite]
  split
  · next hx => rw [hx, lookup_eq_none.mpr h]
  · rfl

/-- **A list written into a map**: of the elements with one key the last one is read. -/
theorem lookup_foldl_insert {γ : Type*} (key : γ → α) (value : γ → β) (l : List γ)
    (s : Finmap fun _ : α => β) (a : α) :
    (l.foldl (fun s c => s.insert (key c) (value c)) s).lookup a =
      ((l.reverse.find? fun c => decide (key c = a)).map value).or (s.lookup a) := by
  induction l generalizing s with
  | nil => rfl
  | cons c l ih =>
    rw [List.foldl_cons, ih, lookup_insert_eq_ite, List.reverse_cons, List.find?_append]
    cases l.reverse.find? fun c => decide (key c = a) with
    | some d => rfl
    | none =>
      rw [Option.none_or, Option.map_none, Option.none_or, List.find?_singleton]
      by_cases h : key c = a
      · simp [h]
      · simp [h, Ne.symm h]

/-! ### Filtering -/

/-- Keep the bindings that pass the test. -/
def retain (p : α → β → Bool) (s : Finmap fun _ : α => β) : Finmap fun _ : α => β where
  entries := s.entries.filter fun e => p e.1 e.2
  nodupKeys := by
    rw [← Multiset.nodup_keys]
    exact Multiset.nodup_of_le (Multiset.map_le_map (Multiset.filter_le _ _))
      (Multiset.nodup_keys.mpr s.nodupKeys)

theorem lookup_retain_eq_some {p : α → β → Bool} {s : Finmap fun _ : α => β} {a : α} {b : β} :
    (s.retain p).lookup a = some b ↔ s.lookup a = some b ∧ p a b = true := by
  rw [lookup_eq_some_iff, lookup_eq_some_iff, retain, Multiset.mem_filter]

theorem mem_retain {p : α → β → Bool} {s : Finmap fun _ : α => β} {a : α} :
    a ∈ s.retain p ↔ ∃ b, s.lookup a = some b ∧ p a b = true := by
  simp only [mem_iff, lookup_retain_eq_some]

/-! ### Sums over the values -/

/-- The sum of `f` over all values. -/
def total (f : β → ℕ) (s : Finmap fun _ : α => β) : ℕ := (s.entries.map fun e => f e.2).sum

omit [DecidableEq α] in
@[simp] theorem total_empty (f : β → ℕ) : total f (∅ : Finmap fun _ : α => β) = 0 := rfl

theorem total_insert_of_notMem (f : β → ℕ) {s : Finmap fun _ : α => β} {a : α} (b : β)
    (h : a ∉ s) : total f (s.insert a b) = f b + total f s := by
  rw [total, total, entries_insert_of_notMem h, Multiset.map_cons, Multiset.sum_cons]

/-- Erasing a binding takes its measure away. -/
theorem total_erase (f : β → ℕ) {s : Finmap fun _ : α => β} {a : α} {b : β}
    (h : s.lookup a = some b) : total f (s.erase a) + f b = total f s := by
  have hins : (s.erase a).insert a b = s := by
    refine ext_lookup fun x => ?_
    rw [lookup_insert_eq_ite, lookup_erase_eq_ite]
    split
    · next hx => rw [hx, h]
    · rfl
  have htot := total_insert_of_notMem f b (notMem_erase_self (s := s) (a := a))
  rw [hins] at htot
  omega

/-- Overwriting a binding exchanges its measure. -/
theorem total_insert (f : β → ℕ) {s : Finmap fun _ : α => β} {a : α} {b c : β}
    (h : s.lookup a = some b) : total f (s.insert a c) + f b = total f s + f c := by
  have hsplit : s.insert a c = (s.erase a).insert a c := by
    refine ext_lookup fun x => ?_
    simp only [lookup_insert_eq_ite, lookup_erase_eq_ite]
    split <;> rfl
  have herase := total_erase f h
  rw [hsplit, total_insert_of_notMem f c notMem_erase_self]
  omega

theorem le_total (f : β → ℕ) {s : Finmap fun _ : α => β} {a : α} {b : β}
    (h : s.lookup a = some b) : f b ≤ total f s := by
  have := total_erase f h
  omega

/-! ### What is found in the values -/

/-- What `f` finds in the values, taken together. -/
def flatValues {γ : Type*} (f : β → List γ) (s : Finmap fun _ : α => β) : Multiset γ :=
  s.entries.bind fun e => f e.2

theorem mem_flatValues {γ : Type*} {f : β → List γ} {s : Finmap fun _ : α => β} {c : γ} :
    c ∈ flatValues f s ↔ ∃ a b, s.lookup a = some b ∧ c ∈ f b := by
  rw [flatValues, Multiset.mem_bind]
  constructor
  · rintro ⟨⟨a, b⟩, hmem, hc⟩
    exact ⟨a, b, lookup_eq_some_iff.mpr hmem, Multiset.mem_coe.mp hc⟩
  · rintro ⟨a, b, hab, hc⟩
    exact ⟨⟨a, b⟩, lookup_eq_some_iff.mp hab, Multiset.mem_coe.mpr hc⟩

section FlatValues

variable {γ : Type*} {f g : β → List γ} {s s' : Finmap fun _ : α => β}

omit [DecidableEq α] in
@[simp] theorem flatValues_empty (f : β → List γ) :
    flatValues f (∅ : Finmap fun _ : α => β) = 0 := rfl

omit [DecidableEq α] in
theorem card_flatValues (f : β → List γ) (s : Finmap fun _ : α => β) :
    (flatValues f s).card = s.total fun b => (f b).length := Multiset.card_bind _ _

omit [DecidableEq α] in
theorem filter_flatValues (f : β → List γ) (p : γ → Prop) [DecidablePred p]
    (s : Finmap fun _ : α => β) :
    (flatValues f s).filter p = flatValues (fun b => (f b).filter p) s := by
  rw [flatValues, flatValues, Multiset.filter_bind]
  rfl

theorem flatValues_congr (h : ∀ a b, s.lookup a = some b → f b = g b) :
    flatValues f s = flatValues g s :=
  Multiset.bind_congr fun e he => by rw [h e.1 e.2 (lookup_eq_some_iff.mpr he)]

/-- The sum over the keys. -/
theorem flatValues_eq_sum (f : β → List γ) (s : Finmap fun _ : α => β) :
    flatValues f s = ∑ a ∈ s.keys, ((((s.lookup a).map f).getD [] : List γ) : Multiset γ) := by
  calc flatValues f s
      = s.entries.bind fun e => ((((s.lookup e.1).map f).getD [] : List γ) : Multiset γ) :=
        Multiset.bind_congr fun e he => by rw [lookup_eq_some_iff.mpr he]; rfl
    _ = (s.entries.map Sigma.fst).bind
          fun a => ((((s.lookup a).map f).getD [] : List γ) : Multiset γ) := by
        rw [Multiset.bind_map]
    _ = _ := rfl

/-- The sum over more than the keys. -/
theorem flatValues_eq_sum_of_subset {t : Finset α} (h : s.keys ⊆ t) (f : β → List γ) :
    flatValues f s = ∑ a ∈ t, ((((s.lookup a).map f).getD [] : List γ) : Multiset γ) := by
  rw [flatValues_eq_sum]
  refine Finset.sum_subset h fun a _ ha => ?_
  rw [lookup_eq_none.mpr fun hmem => ha (mem_keys.mpr hmem)]
  rfl

theorem keys_subset_of_lookup (h : ∀ a b', s'.lookup a = some b' → ∃ b, s.lookup a = some b) :
    s'.keys ⊆ s.keys := by
  intro a ha
  obtain ⟨b', hb'⟩ := mem_iff.mp (mem_keys.mp ha)
  exact mem_keys.mpr (mem_iff.mpr (h a b' hb'))

/-- **Values changed or dropped**, each for itself. -/
theorem flatValues_of_lookup_eq_bind {k : β → Option β}
    (h : ∀ a, s'.lookup a = (s.lookup a).bind k) (f : β → List γ) :
    flatValues f s' = flatValues (fun b => ((k b).map f).getD []) s := by
  have hkeys : s'.keys ⊆ s.keys := keys_subset_of_lookup fun a b' hb' => by
    rw [h] at hb'
    obtain ⟨b, hb, -⟩ := Option.bind_eq_some_iff.mp hb'
    exact ⟨b, hb⟩
  rw [flatValues_eq_sum_of_subset hkeys, flatValues_eq_sum]
  refine Finset.sum_congr rfl fun a _ => ?_
  rw [h]
  cases s.lookup a <;> rfl

/-- **Values that lose something**, or are lost. -/
theorem flatValues_le (h : ∀ a b', s'.lookup a = some b' →
    ∃ b, s.lookup a = some b ∧ (f b' : Multiset γ) ≤ f b) : flatValues f s' ≤ flatValues f s := by
  have hkeys : s'.keys ⊆ s.keys := keys_subset_of_lookup fun a b' hb' =>
    (h a b' hb').imp fun b hb => hb.1
  rw [flatValues_eq_sum_of_subset hkeys, flatValues_eq_sum]
  refine Finset.sum_le_sum fun a _ => ?_
  cases hb' : s'.lookup a with
  | none => exact Multiset.zero_le _
  | some b' =>
    obtain ⟨b, hb, hle⟩ := h a b' hb'
    rw [hb]
    exact hle

/-- **Values dropped, the others as they were**: a test on what is found in them, if there is one
that tells them apart. -/
theorem flatValues_of_lookup_eq_some {p : γ → Prop} [DecidablePred p]
    (hsub : ∀ a b, s'.lookup a = some b → s.lookup a = some b)
    (hleft : ∀ a b, s'.lookup a = some b → ∀ c ∈ f b, p c)
    (hgone : ∀ a b, s.lookup a = some b → a ∉ s' → ∀ c ∈ f b, ¬ p c) :
    flatValues f s' = (flatValues f s).filter p := by
  have hkeys : s'.keys ⊆ s.keys := keys_subset_of_lookup fun a b hb => ⟨b, hsub a b hb⟩
  rw [filter_flatValues, flatValues_eq_sum_of_subset hkeys, flatValues_eq_sum]
  refine Finset.sum_congr rfl fun a ha => ?_
  obtain ⟨b, hb⟩ := mem_iff.mp (mem_keys.mp ha)
  rw [hb]
  cases hb' : s'.lookup a with
  | none =>
    have hempty := hgone a b hb (lookup_eq_none.mp hb')
    rw [Option.map_some, Option.getD_some, List.filter_eq_nil_iff.mpr (by simpa using hempty)]
    rfl
  | some b' =>
    obtain rfl := Option.some.inj (hb.symm.trans (hsub a b' hb'))
    have hall := hleft a b hb'
    rw [Option.map_some, Option.map_some, List.filter_eq_self.mpr (by simpa using hall)]

theorem flatValues_insert_of_notMem {a : α} (h : a ∉ s) (f : β → List γ) (b : β) :
    flatValues f (s.insert a b) = flatValues f s + f b := by
  rw [flatValues, entries_insert_of_notMem h, Multiset.cons_bind, add_comm]
  rfl

/-- **A value that gains something.** -/
theorem flatValues_insert_of_perm {a : α} {b c : β} {new : List γ} (h : s.lookup a = some b)
    (hf : (f c).Perm (f b ++ new)) : flatValues f (s.insert a c) = flatValues f s + new := by
  have hsplit : ∀ c, s.insert a c = (s.erase a).insert a c := fun c => by
    refine ext_lookup fun x => ?_
    simp only [lookup_insert_eq_ite, lookup_erase_eq_ite]
    split <;> rfl
  have hsame : s.insert a b = s := by
    refine ext_lookup fun x => ?_
    rw [lookup_insert_eq_ite]
    split
    · next hx => rw [hx, h]
    · rfl
  calc flatValues f (s.insert a c)
      = flatValues f (s.erase a) + f c := by
        rw [hsplit, flatValues_insert_of_notMem notMem_erase_self]
    _ = flatValues f (s.erase a) + f b + new := by
        rw [Multiset.coe_eq_coe.mpr hf, ← Multiset.coe_add, add_assoc]
    _ = flatValues f s + new := by
        rw [← flatValues_insert_of_notMem notMem_erase_self, ← hsplit, hsame]

/-- What a walk over some of the keys finds, as a sum over them. -/
theorem coe_flatMap_eq_sum {keys : List α} (hnodup : keys.Nodup) (k : α → List γ) :
    (keys.flatMap k : Multiset γ) = ∑ a ∈ keys.toFinset, (k a : Multiset γ) := by
  rw [← Multiset.coe_bind, Finset.sum, List.toFinset_val, hnodup.dedup]
  rfl

/-- **A walk over some of the keys** that finds no more than the values have. -/
theorem coe_flatMap_le_flatValues {keys : List α} (hnodup : keys.Nodup) {k : α → List γ}
    (h : ∀ a ∈ keys, ∃ b, s.lookup a = some b ∧ (k a : Multiset γ) ≤ f b) :
    (keys.flatMap k : Multiset γ) ≤ flatValues f s := by
  have hsub : keys.toFinset ⊆ s.keys := by
    intro a ha
    obtain ⟨b, hb, -⟩ := h a (List.mem_toFinset.mp ha)
    exact mem_keys.mpr (mem_of_lookup_eq_some hb)
  rw [coe_flatMap_eq_sum hnodup, flatValues_eq_sum]
  refine (Finset.sum_le_sum fun a ha => ?_).trans (Finset.sum_le_sum_of_subset hsub)
  obtain ⟨b, hb, hle⟩ := h a (List.mem_toFinset.mp ha)
  rw [hb]
  exact hle

/-- **A walk over some of the keys** that finds no less than the values have. -/
theorem flatValues_le_coe_flatMap {keys : List α} (hnodup : keys.Nodup) {k : α → List γ}
    (hin : ∀ a ∈ keys, ∀ b, s.lookup a = some b → (f b : Multiset γ) ≤ k a)
    (hout : ∀ a b, s.lookup a = some b → a ∉ keys → f b = []) :
    flatValues f s ≤ (keys.flatMap k : Multiset γ) := by
  have hsub : s.keys ⊆ s.keys ∪ keys.toFinset := Finset.subset_union_left
  rw [coe_flatMap_eq_sum hnodup, flatValues_eq_sum_of_subset hsub,
    ← Finset.sum_subset Finset.subset_union_right fun a _ ha => ?_]
  · refine Finset.sum_le_sum fun a ha => ?_
    cases hb : s.lookup a with
    | none => exact Multiset.zero_le _
    | some b => exact hin a (List.mem_toFinset.mp ha) b hb
  · cases hb : s.lookup a with
    | none => rfl
    | some b =>
      rw [Option.map_some, Option.getD_some,
        hout a b hb fun hmem => ha (List.mem_toFinset.mpr hmem)]
      rfl

/-- **A walk over some of the keys**, each for its value. -/
theorem coe_flatMap_eq_flatValues {keys : List α} (hnodup : keys.Nodup) {k : α → List γ}
    (hin : ∀ a ∈ keys, ∃ b, s.lookup a = some b ∧ k a = f b)
    (hout : ∀ a b, s.lookup a = some b → a ∉ keys → f b = []) :
    (keys.flatMap k : Multiset γ) = flatValues f s := by
  refine le_antisymm (coe_flatMap_le_flatValues hnodup fun a ha => ?_)
    (flatValues_le_coe_flatMap hnodup (fun a ha b hb => ?_) hout)
  · obtain ⟨b, hb, hk⟩ := hin a ha
    exact ⟨b, hb, hk ▸ le_rfl⟩
  · obtain ⟨b', hb', hk⟩ := hin a ha
    rw [hk, Option.some.inj (hb'.symm.trans hb)]

end FlatValues

end Finmap

/-- The largest of some numbers is among them, if there are any. -/
theorem Multiset.sup_mem_or_eq_zero (s : Multiset ℕ) : s.sup ∈ s ∨ s.sup = 0 := by
  induction s using Multiset.induction with
  | empty => exact .inr rfl
  | cons a s ih =>
    rw [Multiset.sup_cons, Multiset.mem_cons]
    rcases le_total s.sup a with hle | hle
    · exact .inl (.inl (sup_eq_left.mpr hle))
    · rw [sup_eq_right.mpr hle]
      exact ih.imp_left .inr
