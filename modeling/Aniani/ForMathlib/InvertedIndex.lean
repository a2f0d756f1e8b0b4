import Aniani.ForMathlib.Finmap
import Mathlib.Data.Finset.Insert
import Mathlib.Data.Finset.Erase

/-!
# Inverted indexes

An inverted index is a finite map from keys to containers of values, kept so that a key is bound
exactly when something is filed under it. What it stands for is a relation between keys and
values, and that is how it is specified here: `Represents m R` says that `m` files `v` under `k`
exactly when `R k v`, and that no container in `m` is empty.

Containers are a class, `Bag`, because the programs this is for mix hash sets and sorted lists in
the same store. Only what the index operations need is asked: membership after an insertion, and,
for indexes that also shrink, after a removal.

## Main definitions

* `Bag`, `RemovableBag` — containers, with and without removal
* `InvertedIndex.Holds`, `InvertedIndex.Represents` — what an index says
* `InvertedIndex.add`, `addAll` — file one value, or a list of them
* `InvertedIndex.remove` — take one value out, and its key with the last one
* `InvertedIndex.discard`, `sweep` — the same in two phases: empty containers, then drop them

## Main results

* `Represents.add`, `Represents.addAll`, `Represents.remove` — each operation on the relation
* `remove_comm` — removals commute
* `represents_sweep` — the two-phase removal ends in an index again
* `Represents.mem_iff` — a key is bound exactly when something is filed under it
-/

/-- A container with membership and insertion. -/
class Bag (C : Type*) (V : outParam Type*) [Membership V C] where
  /-- The container with nothing in it. -/
  empty : C
  /-- The container with one more value. -/
  insert : V → C → C
  notMem_empty : ∀ v : V, v ∉ empty
  mem_insert : ∀ {v w : V} {c : C}, w ∈ insert v c ↔ w = v ∨ w ∈ c

/-- A container that values can also leave. -/
class RemovableBag (C : Type*) (V : outParam Type*) [Membership V C] extends Bag C V where
  /-- The container without one value. -/
  remove : V → C → C
  isEmpty : C → Bool
  mem_remove : ∀ {v w : V} {c : C}, w ∈ remove v c ↔ w ∈ c ∧ w ≠ v
  isEmpty_iff : ∀ {c : C}, isEmpty c = true ↔ ∀ v, v ∉ c

instance Finset.instRemovableBag {V : Type*} [DecidableEq V] : RemovableBag (Finset V) V where
  empty := ∅
  insert := Insert.insert
  remove v c := c.erase v
  isEmpty c := decide (c = ∅)
  notMem_empty := Finset.notMem_empty
  mem_insert := Finset.mem_insert
  mem_remove := by simp [Finset.mem_erase, and_comm]
  isEmpty_iff := by simp [Finset.eq_empty_iff_forall_notMem]

/-- An index: a finite map from keys to containers. -/
abbrev InvertedIndex (K C : Type*) := Finmap fun _ : K => C

namespace InvertedIndex

variable {K V C : Type*} [DecidableEq K] [Membership V C]

/-- `m` files `v` under `k`. -/
def Holds (m : InvertedIndex K C) (k : K) (v : V) : Prop := ∃ c, m.lookup k = some c ∧ v ∈ c

/-- `m` is the index of the relation `R`: it files exactly the related pairs, and binds no key to
an empty container. -/
structure Represents (m : InvertedIndex K C) (R : K → V → Prop) : Prop where
  /-- The pairs filed are the related ones. -/
  holds_iff : ∀ k v, m.Holds k v ↔ R k v
  /-- No container is empty. -/
  nonempty : ∀ k c, m.lookup k = some c → ∃ v, v ∈ c

theorem Represents.congr {m : InvertedIndex K C} {R R' : K → V → Prop} (h : m.Represents R)
    (hR : ∀ k v, R k v ↔ R' k v) : m.Represents R' :=
  ⟨fun k v => (h.holds_iff k v).trans (hR k v), h.nonempty⟩

theorem represents_empty : Represents (∅ : InvertedIndex K C) fun _ (_ : V) => False :=
  ⟨fun k v => by simp [Holds], fun k c h => by simp at h⟩

/-- **A key is bound exactly when something is filed under it.** -/
theorem Represents.mem_iff {m : InvertedIndex K C} {R : K → V → Prop} (h : m.Represents R)
    (k : K) : k ∈ m ↔ ∃ v, R k v := by
  rw [Finmap.mem_iff]
  constructor
  · rintro ⟨c, hc⟩
    obtain ⟨v, hv⟩ := h.nonempty k c hc
    exact ⟨v, (h.holds_iff k v).mp ⟨c, hc, hv⟩⟩
  · rintro ⟨v, hv⟩
    obtain ⟨c, hc, -⟩ := (h.holds_iff k v).mpr hv
    exact ⟨c, hc⟩

/-- The container found under a key lists what is related to it. -/
theorem Represents.mem_lookup {m : InvertedIndex K C} {R : K → V → Prop} (h : m.Represents R)
    {k : K} {c : C} (hc : m.lookup k = some c) (v : V) : v ∈ c ↔ R k v := by
  rw [← h.holds_iff]
  constructor
  · exact fun hv => ⟨c, hc, hv⟩
  · rintro ⟨c', hc', hv⟩
    rw [hc] at hc'
    rwa [Option.some.inj hc']

/-- An index of extensional containers is determined by what it says. -/
theorem Represents.eq {m m' : InvertedIndex K C} {R : K → V → Prop} (h : m.Represents R)
    (h' : m'.Represents R) (hext : ∀ c c' : C, (∀ v, v ∈ c ↔ v ∈ c') → c = c') : m = m' := by
  refine Finmap.ext_lookup fun k => ?_
  cases hc : m.lookup k with
  | none =>
    symm
    rw [Finmap.lookup_eq_none, h'.mem_iff, ← h.mem_iff]
    exact Finmap.lookup_eq_none.mp hc
  | some c =>
    obtain ⟨c', hc'⟩ := Finmap.mem_iff.mp
      ((h'.mem_iff k).mpr ((h.mem_iff k).mp (Finmap.mem_of_lookup_eq_some hc)))
    rw [hc', hext c c' fun v => (h.mem_lookup hc v).trans (h'.mem_lookup hc' v).symm]

/-! ### Filing -/

section Add

variable [Bag C V]

/-- File `v` under `k`, binding the key if it is new. -/
def add (m : InvertedIndex K C) (k : K) (v : V) : InvertedIndex K C :=
  m.insert k (Bag.insert v ((m.lookup k).getD Bag.empty))

theorem lookup_add (m : InvertedIndex K C) (k k' : K) (v : V) :
    (m.add k v).lookup k' =
      if k' = k then some (Bag.insert v ((m.lookup k).getD Bag.empty)) else m.lookup k' :=
  Finmap.lookup_insert_eq_ite m k k' _

theorem holds_add {m : InvertedIndex K C} {k k' : K} {v v' : V} :
    (m.add k v).Holds k' v' ↔ (k' = k ∧ v' = v) ∨ m.Holds k' v' := by
  rw [Holds, lookup_add]
  by_cases hk : k' = k
  · subst hk
    cases hc : m.lookup k' <;> simp [Holds, hc, Bag.mem_insert, Bag.notMem_empty]
  · simp [hk, Holds]

/-- A property of containers that the empty one is given by its first insertion, and that later
insertions keep, holds of every container of an index built by filing. -/
theorem forall_lookup_add {m : InvertedIndex K C} {P : C → Prop} (hnew : ∀ v, P (Bag.insert v Bag.empty))
    (hold : ∀ v c, P c → P (Bag.insert v c)) (hm : ∀ k c, m.lookup k = some c → P c) (k : K)
    (v : V) : ∀ k' c, (m.add k v).lookup k' = some c → P c := by
  intro k' c hc
  rw [lookup_add] at hc
  split at hc
  · obtain rfl := Option.some.inj hc
    cases hk : m.lookup k with
    | none => exact hnew v
    | some c => exact hold v c (hm k c hk)
  · exact hm k' c hc

theorem Represents.add {m : InvertedIndex K C} {R : K → V → Prop} (h : m.Represents R) (k : K)
    (v : V) : (m.add k v).Represents fun k' v' => (k' = k ∧ v' = v) ∨ R k' v' where
  holds_iff k' v' := by rw [holds_add, h.holds_iff]
  nonempty := forall_lookup_add (fun v => ⟨v, Bag.mem_insert.mpr (Or.inl rfl)⟩)
    (fun v _ _ => ⟨v, Bag.mem_insert.mpr (Or.inl rfl)⟩) h.nonempty k v

/-- File every pair of a list. -/
def addAll (m : InvertedIndex K C) (ps : List (K × V)) : InvertedIndex K C :=
  ps.foldl (fun m p => m.add p.1 p.2) m

@[simp] theorem addAll_nil (m : InvertedIndex K C) : m.addAll ([] : List (K × V)) = m := rfl

@[simp] theorem addAll_cons (m : InvertedIndex K C) (p : K × V) (ps : List (K × V)) :
    m.addAll (p :: ps) = (m.add p.1 p.2).addAll ps := rfl

theorem addAll_append (m : InvertedIndex K C) (ps ps' : List (K × V)) :
    m.addAll (ps ++ ps') = (m.addAll ps).addAll ps' := List.foldl_append

theorem holds_addAll {m : InvertedIndex K C} {ps : List (K × V)} {k : K} {v : V} :
    (m.addAll ps).Holds k v ↔ (k, v) ∈ ps ∨ m.Holds k v := by
  induction ps generalizing m with
  | nil => simp
  | cons p ps ih =>
    rw [addAll_cons, ih, holds_add, List.mem_cons, Prod.ext_iff]
    tauto

/-- Filing what is filed changes nothing, where a container is a set. -/
theorem addAll_of_holds (hins : ∀ (v : V) (c : C), v ∈ c → Bag.insert v c = c)
    {m : InvertedIndex K C} {ps : List (K × V)} (h : ∀ p ∈ ps, m.Holds p.1 p.2) :
    m.addAll ps = m := by
  induction ps with
  | nil => rfl
  | cons p ps ih =>
    obtain ⟨c, hc, hv⟩ := h p List.mem_cons_self
    have hadd : m.add p.1 p.2 = m := by
      refine Finmap.ext_lookup fun k => ?_
      rw [lookup_add, hc, Option.getD_some, hins _ _ hv]
      split
      · next hk => rw [hk, hc]
      · rfl
    rw [addAll_cons, hadd, ih fun p hp => h p (List.mem_cons_of_mem _ hp)]

theorem Represents.addAll {m : InvertedIndex K C} {R : K → V → Prop} (h : m.Represents R)
    (ps : List (K × V)) : (m.addAll ps).Represents fun k v => (k, v) ∈ ps ∨ R k v := by
  induction ps generalizing m R with
  | nil => exact h.congr fun k v => by simp
  | cons p ps ih =>
    refine (ih (h.add p.1 p.2)).congr fun k v => ?_
    rw [List.mem_cons, Prod.ext_iff]
    tauto

end Add

/-! ### Taking out -/

section Remove

variable [RemovableBag C V]

/-- Take `v` out from under `k`, and unbind the key when that was the last value. -/
def remove (m : InvertedIndex K C) (k : K) (v : V) : InvertedIndex K C :=
  match m.lookup k with
  | none => m
  | some c =>
    if RemovableBag.isEmpty (RemovableBag.remove v c) then m.erase k
    else m.insert k (RemovableBag.remove v c)

theorem holds_remove {m : InvertedIndex K C} {k k' : K} {v v' : V} :
    (m.remove k v).Holds k' v' ↔ m.Holds k' v' ∧ ¬ (k' = k ∧ v' = v) := by
  rw [remove]
  split
  · next hk =>
    refine ⟨fun h => ⟨h, ?_⟩, And.left⟩
    rintro ⟨rfl, -⟩
    obtain ⟨c, hc, -⟩ := h
    simp [hk] at hc
  · next c hk =>
    split
    · next hemp =>
      rw [Holds, Finmap.lookup_erase_eq_ite]
      by_cases hkk : k' = k
      · subst hkk
        simp only [if_true, reduceCtorEq, false_and, exists_false, true_and, false_iff]
        rintro ⟨⟨c', hc', hv'⟩, hne⟩
        obtain rfl : c = c' := by simpa [hk] using hc'
        exact RemovableBag.isEmpty_iff.mp hemp v' (RemovableBag.mem_remove.mpr ⟨hv', hne⟩)
      · simp [hkk, Holds]
    · rw [Holds, Finmap.lookup_insert_eq_ite]
      by_cases hkk : k' = k
      · subst hkk
        simp [Holds, hk, RemovableBag.mem_remove]
      · simp [hkk, Holds]

theorem Represents.remove {m : InvertedIndex K C} {R : K → V → Prop} (h : m.Represents R)
    (k : K) (v : V) : (m.remove k v).Represents fun k' v' => R k' v' ∧ ¬ (k' = k ∧ v' = v) where
  holds_iff k' v' := by rw [holds_remove, h.holds_iff]
  nonempty k' c' hc' := by
    rw [InvertedIndex.remove] at hc'
    split at hc'
    · exact h.nonempty k' c' hc'
    · split at hc'
      · rw [Finmap.lookup_erase_eq_ite] at hc'
        split at hc'
        · simp at hc'
        · exact h.nonempty k' c' hc'
      · next hne =>
        rw [Finmap.lookup_insert_eq_ite] at hc'
        split at hc'
        · obtain rfl := Option.some.inj hc'
          by_contra hno
          exact hne (RemovableBag.isEmpty_iff.mpr fun w hw => hno ⟨w, hw⟩)
        · exact h.nonempty k' c' hc'

/-- What is left under a key. -/
theorem lookup_remove (m : InvertedIndex K C) (k k' : K) (v : V) :
    (m.remove k v).lookup k' =
      if k' = k then (m.lookup k').bind fun c =>
        if RemovableBag.isEmpty (RemovableBag.remove v c) then none
        else some (RemovableBag.remove v c)
      else m.lookup k' := by
  rw [remove]
  by_cases hk : k' = k
  · subst hk
    cases hc : m.lookup k' with
    | none => simp [hc]
    | some c => by_cases hemp : RemovableBag.isEmpty (RemovableBag.remove v c) <;> simp [hemp]
  · rw [if_neg hk]
    split
    · rfl
    split
    · exact Finmap.lookup_erase_ne hk
    · exact Finmap.lookup_insert_of_ne m hk

omit [DecidableEq K] in
/-- Nothing is left of an empty container. -/
theorem isEmpty_remove {c : C} (h : RemovableBag.isEmpty c = true) (v : V) :
    RemovableBag.isEmpty (RemovableBag.remove v c) = true :=
  RemovableBag.isEmpty_iff.mpr fun w hw =>
    RemovableBag.isEmpty_iff.mp h w (RemovableBag.mem_remove.mp hw).1

/-- Two values leave an index of extensional containers in either order. -/
theorem remove_comm (hext : ∀ c c' : C, (∀ v, v ∈ c ↔ v ∈ c') → c = c') (m : InvertedIndex K C)
    (k k' : K) (v v' : V) : (m.remove k v).remove k' v' = (m.remove k' v').remove k v := by
  have hboth : ∀ c : C, RemovableBag.remove v' (RemovableBag.remove v c) =
      RemovableBag.remove v (RemovableBag.remove v' c) := by
    intro c
    refine hext _ _ fun w => ?_
    simp only [RemovableBag.mem_remove]
    exact and_right_comm
  -- a container that is empty after the first removal is empty after both
  have hbind : ∀ (v v' : V) (c : C),
      ((if RemovableBag.isEmpty (RemovableBag.remove v c) then none
        else some (RemovableBag.remove v c)).bind fun c =>
          if RemovableBag.isEmpty (RemovableBag.remove v' c) then none
          else some (RemovableBag.remove v' c)) =
        if RemovableBag.isEmpty (RemovableBag.remove v' (RemovableBag.remove v c)) then none
        else some (RemovableBag.remove v' (RemovableBag.remove v c)) := by
    intro v v' c
    by_cases hemp : RemovableBag.isEmpty (RemovableBag.remove v c) = true
    · rw [if_pos hemp, if_pos (isEmpty_remove hemp v'), Option.bind_none]
    · rw [if_neg hemp, Option.bind_some]
  refine Finmap.ext_lookup fun i => ?_
  simp only [lookup_remove]
  by_cases hk : i = k
  · by_cases hk' : i = k'
    · rw [if_pos hk, if_pos hk', if_pos hk, if_pos hk', Option.bind_assoc, Option.bind_assoc]
      simp only [hbind, hboth]
    · rw [if_pos hk, if_neg hk', if_pos hk, if_neg hk']
  · rw [if_neg hk, if_neg hk]

/-- Take `v` out from under `k`, leaving the key bound even to an empty container. -/
def discard (m : InvertedIndex K C) (k : K) (v : V) : InvertedIndex K C :=
  match m.lookup k with
  | none => m
  | some c => m.insert k (RemovableBag.remove v c)

theorem holds_discard {m : InvertedIndex K C} {k k' : K} {v v' : V} :
    (m.discard k v).Holds k' v' ↔ m.Holds k' v' ∧ ¬ (k' = k ∧ v' = v) := by
  rw [discard]
  split
  · next hk =>
    refine ⟨fun h => ⟨h, ?_⟩, And.left⟩
    rintro ⟨rfl, -⟩
    obtain ⟨c, hc, -⟩ := h
    simp [hk] at hc
  · next c hk =>
    rw [Holds, Finmap.lookup_insert_eq_ite]
    by_cases hkk : k' = k
    · subst hkk
      simp [Holds, hk, RemovableBag.mem_remove]
    · simp [hkk, Holds]

/-- Unbind every key whose container is empty. -/
def sweep (m : InvertedIndex K C) : InvertedIndex K C :=
  m.retain fun _ c => !RemovableBag.isEmpty c

/-- **The second phase of a removal.** Whatever was emptied, sweeping leaves the index of the
pairs that are still filed. -/
theorem represents_sweep {m : InvertedIndex K C} {R : K → V → Prop}
    (h : ∀ k v, m.Holds k v ↔ R k v) : m.sweep.Represents R where
  holds_iff k v := by
    rw [← h, Holds, Holds]
    refine exists_congr fun c => ?_
    rw [sweep, Finmap.lookup_retain_eq_some, and_assoc]
    refine and_congr_right fun _ => and_iff_right_of_imp fun hv => ?_
    simp only [Bool.not_eq_true', Bool.eq_false_iff]
    exact fun hemp => RemovableBag.isEmpty_iff.mp hemp v hv
  nonempty k c hc := by
    rw [sweep, Finmap.lookup_retain_eq_some] at hc
    by_contra hno
    have hemp : RemovableBag.isEmpty c = true :=
      RemovableBag.isEmpty_iff.mpr fun v hv => hno ⟨v, hv⟩
    simp [hemp] at hc

end Remove

end InvertedIndex
