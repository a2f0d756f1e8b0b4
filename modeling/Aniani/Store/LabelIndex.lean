import Aniani.Store.LabelStore

/-!
# The free functions of the `store` module

What each of the shared helpers does, in the terms the invariant of a store is stated in: interning
a label list extends the interner and can be read back, taking an id off the label indexes takes it
out of the represented relation, and a batch is sorted in exactly when the vector is out of order.

## Main results

* `resolve_internPairs`, `valid_internLabelPairs` — interning a label list
* `represents_removeFromLabelIndexes` — the two label indexes after a removal
* `batchNeedsSort_eq_false_iff`, `sortedBy_appendBatch` — the check looks at the batch only
-/

namespace Aniani

open Interner

/-! ### Interning a label list -/

section Intern

variable {Rodeo Spur : Type} [Interner Rodeo Spur]

theorem extends_internPairs (r : Rodeo) (labels : List (String × String)) :
    Extends r (internPairs r labels).2 := by
  induction labels generalizing r with
  | nil => exact Extends.refl r
  | cons pair labels ih =>
    exact ((extends_getOrIntern r _).trans (extends_getOrIntern _ _)).trans (ih _)

theorem valid_internPairs (r : Rodeo) (labels : List (String × String)) :
    ∀ pair ∈ (internPairs r labels).1,
      Valid (internPairs r labels).2 pair.1 ∧ Valid (internPairs r labels).2 pair.2 := by
  induction labels generalizing r with
  | nil => intro pair h; simp [internPairs] at h
  | cons l labels ih =>
    intro pair h
    rcases List.mem_cons.mp h with rfl | h
    · have hext := extends_internPairs (getOrIntern (getOrIntern r l.1).2 l.2).2 labels
      exact ⟨((valid_getOrIntern r l.1).mono (extends_getOrIntern _ _)).mono hext,
        (valid_getOrIntern _ l.2).mono hext⟩
    · exact ih _ pair h

/-- The interned pairs, read back, are the pairs that were given. -/
theorem resolve_internPairs (r : Rodeo) (labels : List (String × String)) :
    (internPairs r labels).1.map (fun pair => (resolve (internPairs r labels).2 pair.1,
      resolve (internPairs r labels).2 pair.2)) = labels := by
  induction labels generalizing r with
  | nil => rfl
  | cons l labels ih =>
    have hext := extends_internPairs (getOrIntern (getOrIntern r l.1).2 l.2).2 labels
    have hk := (valid_getOrIntern r l.1).resolve_eq ((extends_getOrIntern _ l.2).trans hext)
    have hv := (valid_getOrIntern (getOrIntern r l.1).2 l.2).resolve_eq hext
    rw [resolve_getOrIntern_self] at hk hv
    have hl : (l.1, l.2) :: labels = l :: labels := rfl
    rw [← hl]
    simp only [internPairs, List.map_cons, hk, hv, ih]

variable [LinearOrder Spur]

theorem extends_internLabelPairs (r : Rodeo) (labels : List (String × String)) :
    Extends r (internLabelPairs r labels).2 := extends_internPairs r labels

theorem valid_internLabelPairs (r : Rodeo) (labels : List (String × String)) :
    ∀ pair ∈ (internLabelPairs r labels).1,
      Valid (internLabelPairs r labels).2 pair.1 ∧ Valid (internLabelPairs r labels).2 pair.2 :=
  fun pair h => valid_internPairs r labels pair (List.mem_sortByKey.mp h)

end Intern

/-! ### Taking an id off the label indexes -/

section Remove

variable {Spur : Type} [LinearOrder Spur]

/-- One turn: the id leaves the posting list of the pair, and the value index goes on saying which
pairs are carried by some id. -/
theorem represents_removeFromLabelIndex {labelIndex : FxHashMap (Spur × Spur) PostingList}
    {labelValues : FxHashMap Spur (FxHashSet Spur)} {R : Spur × Spur → ℕ → Prop}
    (hidx : InvertedIndex.Represents labelIndex R)
    (hval : InvertedIndex.Represents labelValues fun k v => ∃ id, R (k, v) id)
    (id : ℕ) (pair : Spur × Spur) :
    let next := removeFromLabelIndex id (labelIndex, labelValues) pair
    InvertedIndex.Represents next.1 (fun p i => R p i ∧ ¬ (p = pair ∧ i = id)) ∧
      InvertedIndex.Represents next.2 fun k v => ∃ i, R (k, v) i ∧ ¬ ((k, v) = pair ∧ i = id) := by
  have hrem := hidx.remove pair id
  unfold removeFromLabelIndex
  cases hpl : labelIndex.lookup pair with
  | none =>
    have hno : ∀ i, ¬ R pair i := fun i hi => by
      obtain ⟨c, hc, -⟩ := (hidx.holds_iff pair i).mpr hi
      simp [hpl] at hc
    refine ⟨hidx.congr fun p i => ?_, hval.congr fun k v => exists_congr fun i => ?_⟩
    · exact ⟨fun h => ⟨h, fun hp => hno i (hp.1 ▸ h)⟩, And.left⟩
    · exact ⟨fun h => ⟨h, fun hp => hno i (hp.1 ▸ h)⟩, And.left⟩
  | some pl =>
    have hstep : InvertedIndex.remove labelIndex pair id =
        if (pl.remove id).isEmpty then labelIndex.erase pair
        else labelIndex.insert pair (pl.remove id) := by
      rw [InvertedIndex.remove, hpl]
      rfl
    rw [hstep] at hrem
    by_cases hemp : (pl.remove id).isEmpty = true
    · rw [if_pos hemp] at hrem
      simp only [hemp, if_true]
      refine ⟨hrem, (hval.remove pair.1 pair.2).congr fun k v => ?_⟩
      have honly : ∀ i, R pair i → i = id := fun i hi => by
        by_contra hne
        have hmem : i ∈ pl := (hidx.mem_lookup hpl i).mpr hi
        exact PostingList.isEmpty_iff.mp hemp i (PostingList.mem_remove.mpr ⟨hmem, hne⟩)
      constructor
      · rintro ⟨⟨i, hi⟩, hne⟩
        exact ⟨i, hi, fun h => hne ⟨congrArg Prod.fst h.1, congrArg Prod.snd h.1⟩⟩
      · rintro ⟨i, hi, hne⟩
        refine ⟨⟨i, hi⟩, fun h => ?_⟩
        have hkv : (k, v) = pair := Prod.ext h.1 h.2
        exact hne ⟨hkv, honly i (hkv ▸ hi)⟩
    · rw [if_neg hemp] at hrem
      simp only [hemp, Bool.false_eq_true, if_false]
      refine ⟨hrem, hval.congr fun k v => ⟨?_, fun h => h.imp fun _ => And.left⟩⟩
      rintro ⟨i, hi⟩
      by_cases hp : (k, v) = pair
      · -- the posting list is not empty, so some other id still carries the pair
        rw [PostingList.isEmpty_iff] at hemp
        push Not at hemp
        obtain ⟨j, hj⟩ := hemp
        obtain ⟨hjpl, hjne⟩ := PostingList.mem_remove.mp hj
        exact ⟨j, hp ▸ (hidx.mem_lookup hpl j).mp hjpl, fun h => hjne h.2⟩
      · exact ⟨i, hi, fun h => hp h.1⟩

theorem represents_removeFromLabelIndexes {labelIndex : FxHashMap (Spur × Spur) PostingList}
    {labelValues : FxHashMap Spur (FxHashSet Spur)} {R : Spur × Spur → ℕ → Prop}
    (hidx : InvertedIndex.Represents labelIndex R)
    (hval : InvertedIndex.Represents labelValues fun k v => ∃ id, R (k, v) id)
    (labels : LabelPairs Spur) (id : ℕ) :
    let next := removeFromLabelIndexes labelIndex labelValues labels id
    InvertedIndex.Represents next.1 (fun p i => R p i ∧ ¬ (p ∈ labels ∧ i = id)) ∧
      InvertedIndex.Represents next.2 fun k v => ∃ i, R (k, v) i ∧ ¬ ((k, v) ∈ labels ∧ i = id) := by
  induction labels generalizing labelIndex labelValues R with
  | nil =>
    exact ⟨hidx.congr fun p i => by simp, hval.congr fun k v => by simp⟩
  | cons pair labels ih =>
    obtain ⟨h1, h2⟩ := represents_removeFromLabelIndex hidx hval id pair
    obtain ⟨h3, h4⟩ := ih h1 h2
    have key : ∀ p i, ((R p i ∧ ¬ (p = pair ∧ i = id)) ∧ ¬ (p ∈ labels ∧ i = id)) ↔
        R p i ∧ ¬ (p ∈ pair :: labels ∧ i = id) := by
      intro p i
      rw [List.mem_cons]
      tauto
    exact ⟨h3.congr key, h4.congr fun k v => exists_congr fun i => key (k, v) i⟩

end Remove

/-! ### Sorting only when the batch asks for it -/

section Batch

variable {α : Type}

theorem isChain_iff_windows2 {key : α → ℤ} {items : List α} :
    (items.IsChain fun a b => key a ≤ key b) ↔
      (windows2 items).any (fun w => decide (key w.2 < key w.1)) = false := by
  induction items with
  | nil => simp [windows2]
  | cons a items ih =>
    cases items with
    | nil => simp [windows2]
    | cons b items =>
      rw [List.isChain_cons_cons, ih]
      simp [windows2, not_lt]

/-- **The check looks at the batch only, and is right about the whole vector**: appended to a
sorted prefix, it asks for a sort exactly when the vector is out of order. -/
theorem batchNeedsSort_eq_false_iff {key : α → ℤ} {entries batch : List α}
    (h : entries.SortedBy key) :
    batchNeedsSort (entries ++ batch) entries.length key = false ↔
      (entries ++ batch).SortedBy key := by
  cases batch with
  | nil => simpa [batchNeedsSort] using h
  | cons b batch =>
    have hbatch : (windows2 (b :: batch)).any (fun w => decide (key w.2 < key w.1)) = false ↔
        (b :: batch).SortedBy key := by
      rw [List.sortedBy_iff_isChain, isChain_iff_windows2]
    rw [batchNeedsSort, if_neg (by simp), List.drop_left, List.getElem?_append_right le_rfl,
      Nat.sub_self, List.getElem?_cons_zero]
    rcases List.eq_nil_or_concat entries with rfl | ⟨front, last, rfl⟩
    · simpa using hbatch
    · rw [List.concat_eq_append] at h ⊢
      have hlast : (front ++ [last] ++ b :: batch)[(front ++ [last]).length - 1]? = some last := by
        simp
      have hsplit : (front ++ [last] ++ b :: batch).SortedBy key ↔
          key last ≤ key b ∧ (b :: batch).SortedBy key := by
        constructor
        · intro hall
          have hcross := (List.pairwise_append.mp hall).2.2
          exact ⟨hcross last (by simp) b (by simp), hall.sublist (List.sublist_append_right _ _)⟩
        · rintro ⟨hle, hb⟩
          refine List.pairwise_append.mpr ⟨h, hb, fun x hx y hy => ?_⟩
          have hxl : key x ≤ key last := by
            rcases List.mem_append.mp hx with hx | hx
            · exact (List.pairwise_append.mp h).2.2 x hx last (by simp)
            · rw [List.mem_singleton.mp hx]
          have hby : key b ≤ key y := by
            rcases List.mem_cons.mp hy with rfl | hy
            · exact le_rfl
            · exact (List.pairwise_cons.mp hb).1 y hy
          exact hxl.trans (hle.trans hby)
      rw [hlast, hsplit, ← hbatch]
      by_cases hle : key last ≤ key b
      · simp [hle, not_lt.mpr hle]
      · simp [hle, not_le.mp hle]

variable [Timestamped α]

theorem sortedBy_appendBatch {entries : List α} (h : entries.SortedBy timestamp) (batch : List α) :
    (LabelStore.appendBatch entries batch).SortedBy timestamp := by
  rw [LabelStore.appendBatch]
  split
  · exact List.sortedBy_sortByKey _ _
  · next hno =>
    cases batch with
    | nil => simpa using h
    | cons b batch => exact (batchNeedsSort_eq_false_iff h).mp (by simpa using hno)

theorem appendBatch_perm (entries batch : List α) :
    (LabelStore.appendBatch entries batch).Perm (entries ++ batch) := by
  rw [LabelStore.appendBatch]
  split
  · exact List.sortByKey_perm _ _
  · exact List.Perm.refl _

end Batch

end Aniani
