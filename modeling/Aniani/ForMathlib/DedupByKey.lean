import Aniani.ForMathlib.SortedList
import Mathlib.Data.List.Destutter

/-!
# Neighbours with one key

Of the elements of a list that stand next to each other and have one key, only the first is kept.
In a list that is sorted by its keys the elements of one key all stand next to each other: each key is
left once, with the first element that has it.

## Main definitions

* `List.dedupByKey`

## Main results

* `List.mem_dedupByKey` — what is kept of a sorted list
* `List.pairwise_lt_dedupByKey` — each key is left once
* `List.mem_dedupByKey_sortByKey` — what is kept when a list is sorted first
-/

namespace List

variable {α κ ω : Type*} [DecidableEq κ] [LinearOrder ω]

/-- Of neighbours with one key the first is kept. -/
def dedupByKey (key : α → κ) (l : List α) : List α := l.destutter fun a b => key a ≠ key b

variable {ord : κ → ω} {key : α → κ} {l : List α}

omit [LinearOrder ω] in
theorem dedupByKey_sublist : (dedupByKey key l).Sublist l := destutter_sublist _ l

omit [DecidableEq κ] in
/-- A sorted list without two neighbours of one key has each key once. -/
theorem SortedBy.pairwise_lt (hinj : Function.Injective ord) (h : SortedBy (fun a => ord (key a)) l)
    (hne : l.IsChain fun a b => key a ≠ key b) : l.Pairwise fun a b => ord (key a) < ord (key b) := by
  induction l with
  | nil => exact Pairwise.nil
  | cons a l ih =>
    obtain ⟨hle, hl⟩ := pairwise_cons.mp h
    refine pairwise_cons.mpr ⟨fun b hb => ?_, ih hl hne.tail⟩
    cases l with
    | nil => exact absurd hb not_mem_nil
    | cons c l =>
      have hlt : ord (key a) < ord (key c) :=
        lt_of_le_of_ne (hle c mem_cons_self) (hinj.ne (isChain_cons_cons.mp hne).1)
      rcases mem_cons.mp hb with rfl | hb
      · exact hlt
      · exact hlt.trans_le ((pairwise_cons.mp hl).1 b hb)

/-- **Each key is left once**, and in order. -/
theorem pairwise_lt_dedupByKey (hinj : Function.Injective ord)
    (h : SortedBy (fun a => ord (key a)) l) :
    (dedupByKey key l).Pairwise fun a b => ord (key a) < ord (key b) :=
  (h.sublist dedupByKey_sublist).pairwise_lt hinj (isChain_destutter _ l)

/-- **What is kept** of a sorted list is the first element with its key. -/
theorem mem_dedupByKey (hinj : Function.Injective ord) (h : SortedBy (fun a => ord (key a)) l)
    {x : α} : x ∈ dedupByKey key l ↔ (l.find? fun a => decide (key a = key x)) = some x := by
  cases l with
  | nil => simp [dedupByKey]
  | cons a l =>
    rw [dedupByKey, destutter_cons']
    induction l generalizing a with
    | nil =>
      rw [destutter'_nil, mem_singleton, find?_cons, find?_nil]
      by_cases hx : x = a
      · simp [hx]
      · cases decide (key a = key x) <;> simp [hx, Ne.symm hx]
    | cons b l ih =>
      obtain ⟨hle, hl⟩ := pairwise_cons.mp h
      obtain ⟨hle', hl'⟩ := pairwise_cons.mp hl
      by_cases hab : key a = key b
      · -- `b` falls away, and is not the first with its key
        rw [destutter'_cons_neg _ (by simpa using hab),
          ih a (pairwise_cons.mpr ⟨fun c hc => hle c (mem_cons_of_mem b hc), hl'⟩), find?_cons,
          find?_cons, find?_cons, hab]
        cases decide (key b = key x) <;> rfl
      · rw [destutter'_cons_pos _ hab, mem_cons, ih b hl, find?_cons (a := a)]
        by_cases hax : key a = key x
        · -- everything after `a` has a greater key
          have hnot : (b :: l).find? (fun c => decide (key c = key x)) ≠ some x := by
            intro hfind
            have hlt : ord (key a) < ord (key b) :=
              lt_of_le_of_ne (hle b mem_cons_self) (hinj.ne hab)
            have hx : ord (key b) ≤ ord (key x) := by
              rcases mem_cons.mp (mem_of_find?_eq_some hfind) with rfl | hx
              · exact le_rfl
              · exact hle' x hx
            exact absurd (congrArg ord hax) (hlt.trans_le hx).ne
          simp only [hax, decide_true, hnot, or_false]
          exact ⟨fun hx => congrArg some hx.symm, fun hx => (Option.some.inj hx).symm⟩
        · have hx : x ≠ a := fun hx => hax (congrArg key hx.symm)
          simp only [hax, decide_false, hx, false_or]

/-- What is kept when a list is sorted first: of each key the first element of the list. -/
theorem mem_dedupByKey_sortByKey (hinj : Function.Injective ord) {x : α} :
    x ∈ dedupByKey key (l.sortByKey fun a => ord (key a)) ↔
      (l.find? fun a => decide (key a = key x)) = some x := by
  have hkey : (fun a => decide (key a = key x)) = fun a => decide (ord (key a) = ord (key x)) := by
    funext a
    exact decide_eq_decide.mpr hinj.eq_iff.symm
  rw [mem_dedupByKey hinj (sortedBy_sortByKey _ _), hkey, ← head?_filter, ← head?_filter,
    filter_sortByKey fun a => ord (key a)]

omit [LinearOrder ω] in
/-- Of elements with distinct keys the one of a key is found. -/
theorem find?_eq_some_iff_of_pairwise (h : l.Pairwise fun a b => key a ≠ key b) {k : κ} {a : α} :
    (l.find? fun a => decide (key a = k)) = some a ↔ a ∈ l ∧ key a = k := by
  induction l with
  | nil => simp
  | cons b l ih =>
    obtain ⟨hb, hl⟩ := pairwise_cons.mp h
    rw [find?_cons, mem_cons]
    by_cases hk : key b = k
    · simp only [hk, decide_true]
      constructor
      · intro heq
        obtain rfl := Option.some.inj heq
        exact ⟨.inl rfl, hk⟩
      · rintro ⟨rfl | ha, hak⟩
        · rfl
        · exact absurd (hk.trans hak.symm) (hb a ha)
    · simp only [hk, decide_false, ih hl]
      refine and_congr_left fun hak => (or_iff_right ?_).symm
      rintro rfl
      exact hk hak

end List
