import Mathlib.Data.List.Sort
import Mathlib.Order.Basic
import Mathlib.Tactic.Linarith

/-!
# Windows of a sorted list

A list kept in the order of a key is cut with two binary searches, one for each end of a window.
Each search returns the boundary of a predicate that is true on a prefix of the list, and the
window is the slice between the two boundaries. This file says when the slice exists and what it
is: for a window `lo ≤ key ≤ hi` the slice is the filter of the list, except that the two
boundaries come in the wrong order as soon as an element lies strictly between `hi` and `lo`.

## Main definitions

* `List.SortedBy` — non-decreasing in a key
* `List.sortByKey` — the stable sort by a key
* `List.partitionPoint` — the boundary of a predicate true on a prefix
* `List.slice?` — the elements between two indices, when the indices are in order and in range

## Main results

* `List.take_partitionPoint`, `List.drop_partitionPoint` — the two sides of a boundary
* `List.slice?_window` — the exact condition for a window to be a slice, and its contents
-/

namespace List

variable {α κ : Type*} [LinearOrder κ]

/-! ### Lists sorted by a key -/

/-- The list is non-decreasing in `key`. -/
def SortedBy (key : α → κ) (l : List α) : Prop := l.Pairwise fun a b => key a ≤ key b

theorem sortedBy_nil (key : α → κ) : SortedBy key [] := Pairwise.nil

theorem SortedBy.sublist {key : α → κ} {l l' : List α} (h : SortedBy key l) (hs : l'.Sublist l) :
    SortedBy key l' :=
  Pairwise.sublist hs h

theorem SortedBy.drop {key : α → κ} {l : List α} (h : SortedBy key l) (n : ℕ) :
    SortedBy key (l.drop n) :=
  h.sublist (drop_sublist n l)

/-- The stable sort by a key: equal keys keep their order. -/
def sortByKey (key : α → κ) (l : List α) : List α := l.insertionSort fun a b => key a ≤ key b

theorem sortByKey_perm (key : α → κ) (l : List α) : (sortByKey key l).Perm l :=
  perm_insertionSort _ l

theorem mem_sortByKey {key : α → κ} {l : List α} {a : α} : a ∈ sortByKey key l ↔ a ∈ l :=
  (sortByKey_perm key l).mem_iff

@[simp] theorem length_sortByKey (key : α → κ) (l : List α) :
    (sortByKey key l).length = l.length :=
  (sortByKey_perm key l).length_eq

theorem nodup_sortByKey {key : α → κ} {l : List α} : (sortByKey key l).Nodup ↔ l.Nodup :=
  (sortByKey_perm key l).nodup_iff

theorem sortedBy_sortByKey (key : α → κ) (l : List α) : SortedBy key (sortByKey key l) := by
  have : Std.Total fun a b : α => key a ≤ key b := ⟨fun a b => le_total (key a) (key b)⟩
  have : IsTrans α fun a b : α => key a ≤ key b := ⟨fun _ _ _ => le_trans⟩
  exact pairwise_insertionSort _ l

/-- **The sort is stable**: the elements with one key stay in the order they came in. -/
theorem filter_sortByKey (key : α → κ) (k : κ) (l : List α) :
    ((sortByKey key l).filter fun a => decide (key a = k)) =
      l.filter fun a => decide (key a = k) := by
  have hinsert : ∀ (a : α) (l : List α), SortedBy key l →
      ((l.orderedInsert (fun a b => key a ≤ key b) a).filter fun b => decide (key b = k)) =
        (a :: l).filter fun b => decide (key b = k) := by
    intro a l
    induction l with
    | nil => exact fun _ => rfl
    | cons b l ih =>
      intro hsorted
      obtain ⟨-, hl⟩ := pairwise_cons.mp hsorted
      by_cases hab : key a ≤ key b
      · rw [orderedInsert_cons, if_pos hab]
      · rw [orderedInsert_cons, if_neg hab, filter_cons, ih hl, filter_cons, filter_cons,
          filter_cons]
        by_cases hb : key b = k
        · have ha : key a ≠ k := fun ha => hab (by rw [ha, hb])
          simp [hb, ha]
        · simp [hb]
  induction l with
  | nil => rfl
  | cons a l ih =>
    show ((orderedInsert _ a (sortByKey key l)).filter _) = _
    rw [hinsert a _ (sortedBy_sortByKey key l), filter_cons, filter_cons, ih]

/-- Two sorted lists with the same elements are equal, if elements with one key are. -/
theorem SortedBy.eq_of_perm {key : α → κ} {l l' : List α} (h : SortedBy key l)
    (h' : SortedBy key l') (hperm : l.Perm l')
    (hties : ∀ a ∈ l, ∀ b ∈ l, key a = key b → a = b) : l = l' :=
  hperm.eq_of_pairwise (fun a b ha hb hab hba =>
    hties a ha b (hperm.mem_iff.mpr hb) (le_antisymm hab hba)) h h'

theorem subset_of_filter_eq {key : α → κ} {l l' : List α}
    (hf : ∀ k, (l.filter fun a => decide (key a = k)) = l'.filter fun a => decide (key a = k)) :
    l ⊆ l' := by
  intro a ha
  have hmem : a ∈ l.filter fun x => decide (key x = key a) := mem_filter.mpr ⟨ha, by simp⟩
  rw [hf] at hmem
  exact (mem_filter.mp hmem).1

/-- **The order of the keys and the order within each key determine a list.** -/
theorem SortedBy.eq_of_filter_eq {key : α → κ} {l l' : List α} (h : SortedBy key l)
    (h' : SortedBy key l')
    (hf : ∀ k, (l.filter fun a => decide (key a = k)) = l'.filter fun a => decide (key a = k)) :
    l = l' := by
  have hsub := subset_of_filter_eq hf
  have hsub' := subset_of_filter_eq fun k => (hf k).symm
  induction l generalizing l' with
  | nil => exact (subset_nil.mp hsub').symm
  | cons a l ih =>
    cases l' with
    | nil => exact absurd (hsub mem_cons_self) not_mem_nil
    | cons b l' =>
      obtain ⟨hle, hl⟩ := pairwise_cons.mp h
      obtain ⟨hle', hl'⟩ := pairwise_cons.mp h'
      -- both heads have the least key
      have hkey : key a = key b := by
        refine le_antisymm ?_ ?_
        · rcases mem_cons.mp (hsub' mem_cons_self) with rfl | hb
          · exact le_rfl
          · exact hle b hb
        · rcases mem_cons.mp (hsub mem_cons_self) with rfl | ha
          · exact le_rfl
          · exact hle' a ha
      have hhead := hf (key a)
      rw [filter_cons_of_pos (by simp), filter_cons_of_pos (by simp [hkey])] at hhead
      obtain rfl : a = b := (cons.inj hhead).1
      have htail : ∀ k, (l.filter fun a => decide (key a = k)) =
          l'.filter fun a => decide (key a = k) := by
        intro k
        have hk := hf k
        by_cases ha : key a = k
        · rw [filter_cons_of_pos (by simpa using ha), filter_cons_of_pos (by simpa using ha)] at hk
          exact (cons.inj hk).2
        · rwa [filter_cons_of_neg (by simpa using ha), filter_cons_of_neg (by simpa using ha)] at hk
      rw [ih hl hl' htail (subset_of_filter_eq htail) (subset_of_filter_eq fun k => (htail k).symm)]

theorem sortByKey_of_sortedBy {key : α → κ} {l : List α} (h : SortedBy key l) :
    sortByKey key l = l :=
  (sortedBy_sortByKey key l).eq_of_filter_eq h fun k => filter_sortByKey key k l

/-- Sorting a part first makes no difference. -/
theorem sortByKey_sortByKey_append (key : α → κ) (l l' : List α) :
    sortByKey key (sortByKey key l ++ l') = sortByKey key (l ++ l') := by
  refine (sortedBy_sortByKey key _).eq_of_filter_eq (sortedBy_sortByKey key _) fun k => ?_
  rw [filter_sortByKey, filter_sortByKey, filter_append, filter_append, filter_sortByKey]

/-- Two lists sort to the same list exactly when they agree key by key. -/
theorem sortByKey_eq_iff {key : α → κ} {l l' : List α} :
    sortByKey key l = sortByKey key l' ↔
      ∀ k, (l.filter fun a => decide (key a = k)) = l'.filter fun a => decide (key a = k) := by
  constructor
  · intro h k
    rw [← filter_sortByKey, h, filter_sortByKey]
  · intro h
    refine (sortedBy_sortByKey key l).eq_of_filter_eq (sortedBy_sortByKey key l') fun k => ?_
    rw [filter_sortByKey, filter_sortByKey, h]

/-- A part of the sorted list is the part, sorted. -/
theorem filter_sortByKey_comm (key : α → κ) (p : α → Bool) (l : List α) :
    (sortByKey key l).filter p = sortByKey key (l.filter p) := by
  refine ((sortedBy_sortByKey key l).sublist filter_sublist).eq_of_filter_eq
    (sortedBy_sortByKey key _) fun k => ?_
  rw [filter_sortByKey, filter_comm, filter_sortByKey, filter_comm]

/-- Elements that correspond, with one key for both, sort to elements that correspond. -/
theorem forall₂_sortByKey {β : Type*} {R : α → β → Prop} {key : α → κ} {key' : β → κ}
    (hkey : ∀ {a b}, R a b → key a = key' b) {l : List α} {l' : List β} (h : Forall₂ R l l') :
    Forall₂ R (sortByKey key l) (sortByKey key' l') := by
  have hinsert : ∀ {a b} {l : List α} {l' : List β}, R a b → Forall₂ R l l' →
      Forall₂ R (orderedInsert (fun a b => key a ≤ key b) a l)
        (orderedInsert (fun a b => key' a ≤ key' b) b l') := by
    intro a b l l' hab h
    induction h with
    | nil => exact .cons hab .nil
    | @cons c d l l' hcd htail ih =>
      rw [orderedInsert_cons, orderedInsert_cons, hkey hab, hkey hcd]
      split
      · exact .cons hab (.cons hcd htail)
      · exact .cons hcd ih
  induction h with
  | nil => exact .nil
  | cons hab _ ih => exact hinsert hab ih

/-- Sorting the other part first makes none either. -/
theorem sortByKey_append_sortByKey (key : α → κ) (l l' : List α) :
    sortByKey key (l ++ sortByKey key l') = sortByKey key (l ++ l') := by
  refine sortByKey_eq_iff.mpr fun k => ?_
  rw [filter_append, filter_append, filter_sortByKey]

/-- Elements that correspond have one image. -/
theorem Forall₂.map_eq {β γ : Type*} {R : α → β → Prop} {f : α → γ} {g : β → γ} {l : List α}
    {l' : List β} (h : Forall₂ R l l') (hR : ∀ {a b}, R a b → f a = g b) : l.map f = l'.map g := by
  induction h with
  | nil => rfl
  | cons hab _ ih => rw [map_cons, map_cons, hR hab, ih]

/-- Lists with the same images are equal, if no two of their elements have one. -/
theorem eq_of_map_eq {β : Type*} {f : α → β} {l l' : List α} (h : l.map f = l'.map f)
    (hf : ∀ a ∈ l, ∀ b ∈ l', f a = f b → a = b) : l = l' := by
  have hall : Forall₂ (fun a b => f a = f b) l l' := by
    rwa [← forall₂_eq_eq_eq, forall₂_map_left_iff, forall₂_map_right_iff] at h
  induction hall with
  | nil => rfl
  | cons hab _ ih =>
    rw [hf _ mem_cons_self _ mem_cons_self hab]
    refine congrArg _ (ih (cons.inj h).2 fun a ha b hb => ?_)
    exact hf a (mem_cons_of_mem _ ha) b (mem_cons_of_mem _ hb)

/-- What corresponds to one thing corresponds. -/
theorem Forall₂.of_common {β γ : Type*} {R : α → β → Prop} {R' : α → γ → Prop} {S : β → γ → Prop}
    (hS : ∀ {a b c}, R a b → R' a c → S b c) {l : List α} {m : List β} {n : List γ}
    (h : Forall₂ R l m) (h' : Forall₂ R' l n) : Forall₂ S m n := by
  induction h generalizing n with
  | nil => rw [forall₂_nil_left_iff.mp h']; exact .nil
  | cons hab _ ih =>
    cases h' with
    | cons hac h' => exact .cons (hS hab hac) (ih h')

/-- Sorting images by a key is sorting by the key of the image. -/
theorem sortByKey_map {β : Type*} (key : β → κ) (f : α → β) (l : List α) :
    sortByKey key (l.map f) = (sortByKey (key ∘ f) l).map f := by
  have h : Forall₂ (fun a b => f a = b) l (l.map f) :=
    forall₂_map_right_iff.mpr (forall₂_same.mpr fun _ _ => rfl)
  have hsorted : Forall₂ (fun a b => f a = b) (sortByKey (key ∘ f) l) (sortByKey key (l.map f)) :=
    forall₂_sortByKey (fun hab => congrArg key hab) h
  rw [hsorted.map_eq fun hab => hab, map_id']

/-- **A second sort undoes a first one**, up to ties, exactly when no tie was in the other order. -/
theorem sortByKey_sortByKey_eq_iff {μ : Type*} [LinearOrder μ] {key : α → κ} {first : α → μ}
    {l : List α} : sortByKey key (sortByKey first l) = sortByKey key l ↔
      l.Pairwise fun a b => key a = key b → first a ≤ first b := by
  have hties : (∀ k, (l.filter fun a => decide (key a = k)).SortedBy first) ↔
      l.Pairwise fun a b => key a = key b → first a ≤ first b := by
    simp only [SortedBy, pairwise_filter, decide_eq_true_eq]
    constructor
    · intro h
      refine pairwise_iff_forall_sublist.mpr fun {a b} hab heq => ?_
      exact pairwise_iff_forall_sublist.mp (h (key b)) hab heq rfl
    · intro h k
      exact h.imp fun hab ha hb => hab (ha.trans hb.symm)
  rw [sortByKey_eq_iff, ← hties]
  refine forall_congr' fun k => ?_
  rw [filter_sortByKey_comm]
  exact ⟨fun h => h ▸ sortedBy_sortByKey first _, sortByKey_of_sortedBy⟩

/-- A sorted list is what is at most a bound, and then what is above it. -/
theorem SortedBy.filter_le_append_filter_lt {key : α → κ} {l : List α} (h : SortedBy key l)
    (m : κ) : (l.filter fun a => key a ≤ m) ++ (l.filter fun a => m < key a) = l := by
  induction l with
  | nil => rfl
  | cons a l ih =>
    obtain ⟨hle, hl⟩ := pairwise_cons.mp h
    by_cases ha : key a ≤ m
    · rw [filter_cons_of_pos (by simpa using ha), filter_cons_of_neg (by simpa using ha),
        cons_append, ih hl]
    · have hlt : ∀ b ∈ a :: l, m < key b := by
        intro b hb
        rcases mem_cons.mp hb with rfl | hb
        · exact not_le.mp ha
        · exact (not_le.mp ha).trans_le (hle b hb)
      rw [filter_eq_nil_iff.mpr fun b hb => by simpa using hlt b hb, nil_append,
        filter_eq_self.mpr fun b hb => by simpa using hlt b hb]

/-- Filtering by two lower bounds is filtering by the larger one. -/
theorem filter_le_filter_le (key : α → κ) (a b : κ) (l : List α) :
    ((l.filter fun x => decide (a ≤ key x)).filter fun x => decide (b ≤ key x)) =
      l.filter fun x => decide (max a b ≤ key x) := by
  rw [filter_filter]
  refine filter_congr fun x _ => ?_
  rw [← Bool.decide_and, decide_eq_decide, max_le_iff, and_comm]

/-- Adjacent elements in order make the whole list sorted. -/
theorem sortedBy_iff_isChain {key : α → κ} {l : List α} :
    SortedBy key l ↔ l.IsChain fun a b => key a ≤ key b := by
  have : Trans (fun a b : α => key a ≤ key b) (fun a b => key a ≤ key b)
      fun a b => key a ≤ key b := ⟨le_trans⟩
  exact isChain_iff_pairwise.symm

/-! ### Boundaries -/

/-- The index of the first element that fails `p`: the boundary of a predicate that holds on a
prefix and nowhere after it. -/
def partitionPoint (p : α → Bool) (l : List α) : ℕ := (l.takeWhile p).length

theorem partitionPoint_le_length (p : α → Bool) (l : List α) : l.partitionPoint p ≤ l.length :=
  ( takeWhile_prefix p).length_le

@[simp] theorem take_partitionPoint_eq_takeWhile (p : α → Bool) (l : List α) :
    l.take (l.partitionPoint p) = l.takeWhile p :=
  (prefix_iff_eq_take.mp ( takeWhile_prefix p)).symm

@[simp] theorem drop_partitionPoint_eq_dropWhile (p : α → Bool) (l : List α) :
    l.drop (l.partitionPoint p) = l.dropWhile p := by
  calc l.drop (l.partitionPoint p)
      = (l.takeWhile p ++ l.dropWhile p).drop (l.partitionPoint p) := by
        rw [takeWhile_append_dropWhile]
    _ = l.dropWhile p := drop_left' rfl

/-- `p` is true on a prefix of `l` and false after it. -/
def Partitioned (p : α → Bool) (l : List α) : Prop :=
  l.Pairwise fun a b => p b = true → p a = true

theorem Partitioned.tail {p : α → Bool} {a : α} {l : List α} (h : Partitioned p (a :: l)) :
    Partitioned p l :=
  (pairwise_cons.mp h).2

theorem Partitioned.all_false {p : α → Bool} {a : α} {l : List α} (h : Partitioned p (a :: l))
    (ha : p a = false) : ∀ b ∈ l, p b = false := by
  intro b hb
  by_contra hpb
  have := (pairwise_cons.mp h).1 b hb (by simpa using hpb)
  simp [ha] at this

/-- Before its boundary lie the elements that pass. -/
theorem take_partitionPoint {p : α → Bool} {l : List α} (h : Partitioned p l) :
    l.take (l.partitionPoint p) = l.filter p := by
  rw [take_partitionPoint_eq_takeWhile]
  induction l with
  | nil => rfl
  | cons a l ih =>
    cases ha : p a with
    | true => rw [takeWhile_cons_of_pos ha, filter_cons_of_pos ha, ih h.tail]
    | false =>
      rw [takeWhile_cons_of_neg (by simp [ha]), filter_cons_of_neg (by simp [ha])]
      exact (filter_eq_nil_iff.mpr fun b hb => by simp [h.all_false ha b hb]).symm

/-- After its boundary lie the elements that fail. -/
theorem drop_partitionPoint {p : α → Bool} {l : List α} (h : Partitioned p l) :
    l.drop (l.partitionPoint p) = l.filter fun a => !p a := by
  rw [drop_partitionPoint_eq_dropWhile]
  induction l with
  | nil => rfl
  | cons a l ih =>
    cases ha : p a with
    | true => rw [dropWhile_cons_of_pos ha, filter_cons_of_neg (by simp [ha]), ih h.tail]
    | false =>
      rw [dropWhile_cons_of_neg (by simp [ha])]
      refine (filter_eq_self.mpr fun b hb => ?_).symm
      rcases mem_cons.mp hb with rfl | hb
      · simp [ha]
      · simp [h.all_false ha b hb]

theorem partitionPoint_eq_countP {p : α → Bool} {l : List α} (h : Partitioned p l) :
    l.partitionPoint p = l.countP p := by
  rw [countP_eq_length_filter, ← take_partitionPoint h, length_take,
    min_eq_left (partitionPoint_le_length p l)]

theorem partitioned_lt {key : α → κ} {l : List α} (h : SortedBy key l) (c : κ) :
    Partitioned (fun a => decide (key a < c)) l :=
  h.imp fun hab hb => by simp only [decide_eq_true_eq] at hb ⊢; exact lt_of_le_of_lt hab hb

theorem partitioned_le {key : α → κ} {l : List α} (h : SortedBy key l) (c : κ) :
    Partitioned (fun a => decide (key a ≤ c)) l :=
  h.imp fun hab hb => by simp only [decide_eq_true_eq] at hb ⊢; exact hab.trans hb

/-! ### Windows -/

/-- `&l[lo..hi]`: the slice between two indices, or nothing where the indices are out of order
or out of range. -/
def slice? (l : List α) (lo hi : ℕ) : Option (List α) :=
  if lo ≤ hi ∧ hi ≤ l.length then some ((l.take hi).drop lo) else none

/-- Two boundaries on one list are in order unless an element passes only the first test. -/
theorem countP_le_countP_iff {p q : α → Bool} {l : List α} (hp : Partitioned p l)
    (hq : Partitioned q l) :
    l.countP p ≤ l.countP q ↔ ∀ a ∈ l, p a = true → q a = true := by
  refine ⟨fun hle => ?_, fun h => countP_mono_left h⟩
  intro a ha hpa
  by_contra hqa
  rw [← partitionPoint_eq_countP hp, ← partitionPoint_eq_countP hq] at hle
  have hmem : a ∈ l.take (l.partitionPoint p) := by
    rw [take_partitionPoint hp]; exact mem_filter.mpr ⟨ha, hpa⟩
  have hqlt : ∀ b ∈ l.take (l.partitionPoint q), q b = true := by
    rw [take_partitionPoint hq]; exact fun b hb => (mem_filter.mp hb).2
  -- `a` sits before the boundary of `p`, hence before that of `q`
  exact hqa (hqlt a ((take_sublist_take_left hle).subset hmem))

/-- **The window of a sorted list.** Cutting between the boundary of `key < lo` and the boundary
of `key ≤ hi` succeeds exactly when no element lies strictly between `hi` and `lo`, and then
gives the elements of the window in order. -/
theorem slice?_window {key : α → κ} {l : List α} (h : SortedBy key l) (lo hi : κ) :
    l.slice? (l.partitionPoint fun a => decide (key a < lo))
        (l.partitionPoint fun a => decide (key a ≤ hi)) =
      if ∃ a ∈ l, hi < key a ∧ key a < lo then none
      else some (l.filter fun a => decide (lo ≤ key a) && decide (key a ≤ hi)) := by
  have hp := partitioned_lt h lo
  have hq := partitioned_le h hi
  have hle : (l.partitionPoint fun a => decide (key a < lo)) ≤
      (l.partitionPoint fun a => decide (key a ≤ hi)) ↔
        ¬ ∃ a ∈ l, hi < key a ∧ key a < lo := by
    rw [partitionPoint_eq_countP hp, partitionPoint_eq_countP hq, countP_le_countP_iff hp hq]
    push Not
    simp only [decide_eq_true_eq]
    refine forall₂_congr fun a _ => ⟨fun h1 h2 => ?_, fun h1 h2 => ?_⟩
    · by_contra h3
      exact absurd (h1 (not_le.mp h3)) (not_le.mpr h2)
    · by_contra h3
      exact absurd h2 (not_lt.mpr (h1 (not_le.mp h3)))
  by_cases hgap : ∃ a ∈ l, hi < key a ∧ key a < lo
  · rw [if_pos hgap, slice?, if_neg]
    exact fun hc => hle.mp hc.1 hgap
  · rw [if_neg hgap, slice?, if_pos ⟨hle.mpr hgap, partitionPoint_le_length _ l⟩,
      take_partitionPoint hq]
    congr 1
    -- within the elements up to `hi`, the boundary of `key < lo` is where it is in `l`
    have hsub : SortedBy key (l.filter fun a => decide (key a ≤ hi)) := h.sublist filter_sublist
    have hpoint : (l.partitionPoint fun a => decide (key a < lo)) =
        (l.filter fun a => decide (key a ≤ hi)).partitionPoint fun a => decide (key a < lo) := by
      rw [partitionPoint_eq_countP hp, partitionPoint_eq_countP (partitioned_lt hsub lo),
        countP_filter]
      refine countP_congr fun a ha => ?_
      simp only [Bool.and_eq_true, decide_eq_true_eq]
      refine ⟨fun hlt => ⟨hlt, ?_⟩, And.left⟩
      by_contra hc
      exact hgap ⟨a, ha, not_le.mp hc, hlt⟩
    rw [hpoint, drop_partitionPoint (partitioned_lt hsub lo), filter_filter]
    refine filter_congr fun a _ => ?_
    simp only [← not_lt, decide_not]

end List
