import Aniani.ForMathlib.SortedList
import Mathlib.Order.OrderDual

/-!
# The first of a sorted list

A list is sorted and cut. The part that is kept is in order, and nothing left out comes before any
of it. When the list is sorted by one measure and judged by another, that is so just when the two
agree about every pair whose first element is kept.

## Main definitions

* `List.Leads` — a part in descending order that is not below the rest
* `List.IsTop` — so many of the elements that qualify, no one that is omitted above them

## Main results

* `List.leads_take_drop`, `List.isTop_take` — a part of a list that is sorted by the measure
* `List.leads_take_drop_iff` — one of a list that is sorted by another
-/

namespace List

variable {α ν κ : Type*} [LinearOrder ν] [LinearOrder κ] {l listed omitted : List α} {v : α → ν}
  {key : α → κ} {n : ℕ}

/-- The part that is listed is in descending order, and nothing omitted is above it. -/
def Leads (v : α → ν) (listed omitted : List α) : Prop :=
  (listed.Pairwise fun a b => v b ≤ v a) ∧ ∀ a ∈ listed, ∀ b ∈ omitted, v b ≤ v a

/-- The order of descending keys. -/
def SortedByDesc (v : α → ν) (l : List α) : Prop := l.Pairwise fun a b => v b ≤ v a

/-- The stable sort by descending keys. -/
theorem sortedByDesc_sortByKey (v : α → ν) (l : List α) :
    SortedByDesc v (l.sortByKey fun a => OrderDual.toDual (v a)) :=
  sortedBy_sortByKey (fun a => OrderDual.toDual (v a)) l

theorem leads_append_iff : SortedByDesc v (listed ++ omitted) ↔
    Leads v listed omitted ∧ SortedByDesc v omitted := by
  rw [SortedByDesc, pairwise_append, Leads, SortedByDesc]
  tauto

/-- **The first of a sorted list** lead. -/
theorem leads_take_drop (h : SortedByDesc v l) (n : ℕ) : Leads v (l.take n) (l.drop n) :=
  (leads_append_iff.mp ((take_append_drop n l).symm ▸ h)).1

theorem leads_map {β : Type*} {f : β → α} {listed omitted : List β} :
    Leads v (listed.map f) (omitted.map f) ↔ Leads (fun b => v (f b)) listed omitted := by
  rw [Leads, Leads, pairwise_map, forall_mem_map]
  exact and_congr_right fun _ => forall₂_congr fun _ _ => forall_mem_map

theorem leads_congr_right {omitted' : List α} (h : omitted.Perm omitted') :
    Leads v listed omitted ↔ Leads v listed omitted' :=
  and_congr_right fun _ => forall₂_congr fun _ _ => forall_congr' fun _ => imp_congr_left h.mem_iff

/-- The part that is listed has at most so many of the elements that qualify, each once and in
descending order. It is full when one that qualifies is omitted, and nothing omitted is above it. -/
structure IsTop (v : α → ν) (limit : ℕ) (P : α → Prop) (listed : List α) : Prop where
  nodup : listed.Nodup
  qualifies : ∀ a ∈ listed, P a
  sorted : SortedByDesc v listed
  length_le : listed.length ≤ limit
  full : ∀ a, P a → a ∉ listed → listed.length = limit ∧ ∀ b ∈ listed, v a ≤ v b

/-- **The first of a sorted list** of all that qualify. -/
theorem isTop_take {P : α → Prop} (hnodup : l.Nodup) (hsorted : SortedByDesc v l)
    (hmem : ∀ a, a ∈ l ↔ P a) (n : ℕ) : IsTop v n P (l.take n) := by
  have hleads := leads_take_drop hsorted n
  refine ⟨hnodup.sublist (take_sublist n l), fun a ha => (hmem a).mp (mem_of_mem_take ha), hleads.1,
    length_take_le n l, fun a ha hnot => ?_⟩
  have hdrop : a ∈ l.drop n := by
    have hl := (hmem a).mpr ha
    rw [← take_append_drop n l] at hl
    exact (mem_append.mp hl).resolve_left hnot
  refine ⟨length_take_of_le ?_, fun b hb => hleads.2 b hb a hdrop⟩
  have hpos := length_pos_of_mem hdrop
  rw [length_drop] at hpos
  omega

/-- Every element of the part is above all that come after it in the list. -/
theorem leads_take_drop_iff_split : Leads v (l.take n) (l.drop n) ↔
    ∀ pre x post, l = pre ++ x :: post → pre.length < n → ∀ y ∈ post, v y ≤ v x := by
  induction l generalizing n with
  | nil => simp [Leads]
  | cons a l ih =>
    cases n with
    | zero => simp [Leads]
    | succ n =>
      have hsplit : Leads v ((a :: l).take (n + 1)) ((a :: l).drop (n + 1)) ↔
          (∀ y ∈ l, v y ≤ v a) ∧ Leads v (l.take n) (l.drop n) := by
        have hall : (∀ y ∈ l, v y ≤ v a) ↔
            (∀ y ∈ l.take n, v y ≤ v a) ∧ ∀ y ∈ l.drop n, v y ≤ v a := by
          rw [← forall_mem_append, take_append_drop]
        rw [take_succ_cons, drop_succ_cons, Leads, Leads, pairwise_cons, forall_mem_cons, hall]
        tauto
      rw [hsplit, ih]
      constructor
      · rintro ⟨hhead, htail⟩ pre x post heq hlen
        cases pre with
        | nil =>
          obtain ⟨rfl, rfl⟩ := cons.inj heq
          exact hhead
        | cons b pre =>
          obtain ⟨rfl, rfl⟩ := cons.inj heq
          exact htail pre x post rfl (Nat.succ_lt_succ_iff.mp hlen)
      · intro h
        exact ⟨h [] a l rfl n.succ_pos, fun pre x post heq hlen =>
          h (a :: pre) x post (by rw [heq, cons_append]) (Nat.succ_lt_succ hlen)⟩

/-- **The first of a list sorted by another measure** lead just when the measures agree about each
pair of elements that the cut could separate. -/
theorem leads_take_drop_iff (h : SortedByDesc key l)
    (hv : ∀ a ∈ l, ∀ b ∈ l, key a = key b → v a = v b) :
    Leads v (l.take n) (l.drop n) ↔ ∀ x ∈ l, ∀ y ∈ l, key y < key x →
      l.countP (fun a => decide (key x < key a)) < n → v y ≤ v x := by
  rw [leads_take_drop_iff_split]
  constructor
  · intro hsplit x hx y hy hlt hcount
    -- the first element with the key of `x` has nothing before it but what is above
    have hpart : Partitioned (fun a => decide (key x < key a)) l :=
      h.imp fun hab hb => decide_eq_true ((of_decide_eq_true hb).trans_le hab)
    have hlen := partitionPoint_eq_countP hpart
    have hpost := drop_partitionPoint hpart
    have happend := takeWhile_append_dropWhile (p := fun a => decide (key x < key a)) (l := l)
    rw [drop_partitionPoint_eq_dropWhile] at hpost
    have hmem (z : α) (hz : z ∈ l) (hzx : key z ≤ key x) :
        z ∈ l.dropWhile fun a => decide (key x < key a) := by
      rw [hpost, mem_filter]
      exact ⟨hz, by simpa using hzx⟩
    obtain ⟨x', post, hx'⟩ := exists_cons_of_ne_nil (ne_nil_of_mem (hmem x hx le_rfl))
    rw [hx'] at happend
    have hx'l : x' ∈ l := happend ▸ mem_append_cons_self
    have hle : key x' ≤ key x := by
      have hfilter : x' ∈ l.filter fun a => !decide (key x < key a) := by
        rw [← hpost, hx']
        exact mem_cons_self
      simpa using (mem_filter.mp hfilter).2
    have hsorted : SortedByDesc key (x' :: post) := by
      rw [← hx', hpost]
      exact h.filter _
    have hxx' : key x = key x' := by
      refine le_antisymm ?_ hle
      rcases mem_cons.mp (hx' ▸ hmem x hx le_rfl) with rfl | hpostx
      · exact le_rfl
      · exact rel_of_pairwise_cons hsorted hpostx
    rw [hv x hx x' hx'l hxx']
    refine hsplit _ x' post happend.symm (hlen.trans_lt hcount) y ?_
    rcases mem_cons.mp (hx' ▸ hmem y hy hlt.le) with rfl | hposty
    · exact absurd hxx' hlt.ne'
    · exact hposty
  · rintro hpairs pre x post rfl hlen y hy
    have hle : key y ≤ key x := rel_of_pairwise_cons (pairwise_append.mp h).2.1 hy
    have hx : x ∈ pre ++ x :: post := mem_append_cons_self
    have hy' : y ∈ pre ++ x :: post := mem_append_right _ (mem_cons_of_mem _ hy)
    rcases hle.eq_or_lt with heq | hlt
    · exact (hv y hy' x hx heq).le
    · refine hpairs x hx y hy' hlt (lt_of_le_of_lt ?_ hlen)
      have hzero : (x :: post).countP (fun a => decide (key x < key a)) = 0 := by
        rw [countP_eq_zero, forall_mem_cons]
        refine ⟨by simp, fun z hz => ?_⟩
        simpa using rel_of_pairwise_cons (pairwise_append.mp h).2.1 hz
      rw [countP_append, hzero, add_zero]
      exact countP_le_length

end List
