import Aniani.ForMathlib.TopK

/-!
# Which elements outlast a stream

`List.topK` keeps the greatest `k` elements of a stream, and of equal ones the later go on being
held while the earlier give way. Which they are can be read off the stream: an element is taken in
when fewer than `k` of the elements before it are as great, and it is held to the end when of the
elements as great, those that come after the first `k` and are greater are no more than the equal
ones before it.

## Main definitions

* `List.splits` — the elements of a list, each with what is before it and after it
* `List.Outlasts` — an element is held to the end

## Main results

* `List.topK_eq` — what is held is what outlasts the stream
* `List.pairwise_topK_iff` — a relation of the elements held, two by two
-/

namespace List

variable {β κ : Type*} [LinearOrder κ] {k : ℕ} {key : β → κ}

/-! ### Splits -/

/-- An element of a list, with what is before it and what is after it. -/
structure Split (β : Type*) where
  before : List β
  elem : β
  after : List β

/-- The elements of a list, each with what is around it. -/
def splits : List β → List (Split β)
  | [] => []
  | b :: l => ⟨[], b, l⟩ :: (splits l).map fun s => ⟨b :: s.before, s.elem, s.after⟩

theorem mem_splits {l : List β} {s : Split β} :
    s ∈ l.splits ↔ l = s.before ++ s.elem :: s.after := by
  induction l generalizing s with
  | nil => simp [splits]
  | cons b l ih =>
    obtain ⟨before, c, after⟩ := s
    rw [splits, mem_cons, mem_map]
    constructor
    · rintro (h | ⟨s, hs, h⟩)
      · obtain ⟨rfl, rfl, rfl⟩ := Split.mk.inj h
        rfl
      · obtain ⟨rfl, rfl, rfl⟩ := Split.mk.inj h
        rw [ih.mp hs, cons_append]
    · intro h
      cases before with
      | nil =>
        obtain ⟨rfl, rfl⟩ := cons.inj h
        exact Or.inl rfl
      | cons a before =>
        obtain ⟨rfl, rfl⟩ := cons.inj h
        exact Or.inr ⟨⟨before, c, after⟩, ih.mpr rfl, rfl⟩

/-- One more element comes after the others. -/
def Split.snoc (x : β) (s : Split β) : Split β := ⟨s.before, s.elem, s.after ++ [x]⟩

theorem splits_concat (l : List β) (x : β) :
    (l ++ [x]).splits = l.splits.map (Split.snoc x) ++ [⟨l, x, []⟩] := by
  induction l with
  | nil => rfl
  | cons b l ih =>
    rw [cons_append, splits, ih, splits, map_append, map_map, map_cons, map_cons, map_map]
    rfl

/-- What is before a later element begins with an earlier one and what is before that. -/
theorem pairwise_splits (l : List β) :
    l.splits.Pairwise fun s t => (s.before ++ [s.elem]) <+: t.before := by
  induction l with
  | nil => exact Pairwise.nil
  | cons b l ih =>
    refine pairwise_cons.mpr ⟨fun t ht => ?_, pairwise_map.mpr (ih.imp fun h => ?_)⟩
    · obtain ⟨s, -, rfl⟩ := mem_map.mp ht
      exact ⟨s.before, rfl⟩
    · exact (prefix_cons_inj b).mpr h

/-! ### Outlasting -/

variable (k key) in
/-- The elements as great as one, of the list it is in. -/
def Split.asGreat (s : Split β) : List β :=
  (s.before ++ s.elem :: s.after).filter fun c => decide (key s.elem ≤ key c)

variable (k key) in
/-- How many greater elements come after the first `k` as great. -/
def Split.late (s : Split β) : ℕ :=
  ((s.asGreat key).drop k).countP fun c => decide (key s.elem < key c)

variable (k key) in
/-- **An element is held to the end**, by what comes before it and after it. -/
def Split.Outlasts (s : Split β) : Prop :=
  s.before.countP (fun c => decide (key s.elem ≤ key c)) < k ∧
    s.late k key ≤ s.before.countP fun c => decide (key c = key s.elem)

instance (s : Split β) : Decidable (s.Outlasts k key) := inferInstanceAs (Decidable (_ ∧ _))

variable (k key) in
/-- The elements that outlast the stream. -/
def outlasting (l : List β) : List β :=
  (l.splits.filter fun s => decide (s.Outlasts k key)).map Split.elem

/-! ### One more element -/

variable {s : Split β} {x : β}

theorem Split.asGreat_snoc :
    (s.snoc x).asGreat key =
      s.asGreat key ++ if key s.elem ≤ key x then [x] else [] := by
  show ((s.before ++ s.elem :: (s.after ++ [x])).filter fun c => decide (key s.elem ≤ key c)) = _
  rw [← cons_append, ← append_assoc, filter_append, asGreat, filter_singleton]
  by_cases hle : key s.elem ≤ key x <;> simp [hle]

/-- A greater element comes late exactly when there are `k` elements as great already. -/
theorem Split.late_snoc :
    (s.snoc x).late k key =
      s.late k key + if key s.elem < key x ∧ k ≤ (s.asGreat key).length then 1 else 0 := by
  show (((s.snoc x).asGreat key).drop k).countP (fun c => decide (key s.elem < key c)) = _
  rw [asGreat_snoc, drop_append, countP_append, late]
  congr 1
  by_cases hlt : key s.elem < key x
  · rw [if_pos hlt.le]
    by_cases hk : k ≤ (s.asGreat key).length
    · rw [if_pos ⟨hlt, hk⟩, Nat.sub_eq_zero_of_le hk]
      simp [hlt]
    · rw [if_neg fun h => hk h.2, drop_of_length_le (by simp; omega)]
      rfl
  · have hno : ¬ (key s.elem < key x ∧ k ≤ (s.asGreat key).length) := fun h => hlt h.1
    rw [if_neg hno, countP_eq_zero]
    intro c hc
    have hmem := mem_of_mem_drop hc
    split at hmem
    · rw [mem_singleton.mp hmem]
      simpa using hlt
    · exact absurd hmem not_mem_nil

theorem Split.Outlasts.of_snoc (h : (s.snoc x).Outlasts k key) : s.Outlasts k key := by
  obtain ⟨hin, hlate⟩ := h
  rw [late_snoc] at hlate
  exact ⟨hin, (Nat.le_add_right _ _).trans hlate⟩

/-- While there is room, everything goes on being held. -/
theorem Split.outlasts_of_length {l : List β} (hs : s ∈ l.splits) (hlen : l.length ≤ k) :
    s.Outlasts k key := by
  rw [mem_splits] at hs
  have hlength : s.before.length < k := by
    rw [hs, length_append, length_cons] at hlen
    omega
  refine ⟨countP_le_length.trans_lt hlength, ?_⟩
  have hasGreat : (s.asGreat key).length ≤ k := (length_filter_le _ _).trans (hs ▸ hlen)
  rw [late, drop_of_length_le hasGreat]
  exact Nat.zero_le _

/-- The last element is held exactly when it was taken in. -/
theorem outlasts_last (l : List β) :
    (⟨l, x, []⟩ : Split β).Outlasts k key ↔
      l.countP (fun c => decide (key x ≤ key c)) < k := by
  refine ⟨And.left, fun h => ⟨h, ?_⟩⟩
  have hlen : ((⟨l, x, []⟩ : Split β).asGreat key).length ≤ k := by
    show ((l ++ [x]).filter fun c => decide (key x ≤ key c)).length ≤ k
    rw [filter_append, length_append, ← countP_eq_length_filter]
    exact Nat.add_le_of_le_sub' (by omega) ((length_filter_le _ _).trans (by simp; omega))
  rw [Split.late, drop_of_length_le hlen]
  exact Nat.zero_le _

theorem outlasting_concat (l : List β) :
    (l ++ [x]).outlasting k key =
      (l.splits.filter fun s => decide ((s.snoc x).Outlasts k key)).map Split.elem ++
        if l.countP (fun c => decide (key x ≤ key c)) < k then [x] else [] := by
  rw [outlasting, splits_concat, filter_append, map_append, filter_map, map_map, filter_singleton]
  congr 1
  by_cases hin : l.countP (fun c => decide (key x ≤ key c)) < k
  · rw [if_pos hin, decide_eq_true ((outlasts_last l).mpr hin)]
    rfl
  · rw [if_neg hin, decide_eq_false fun h => hin ((outlasts_last l).mp h)]
    rfl

/-! ### What is held -/

theorem exists_last {p : β → Bool} {l : List β} (h : 0 < l.countP p) :
    ∃ u b v, l = u ++ b :: v ∧ p b = true ∧ v.countP p = 0 := by
  induction l using reverseRecOn with
  | nil => simp at h
  | append_singleton l x ih =>
    by_cases hx : p x = true
    · exact ⟨l, x, [], rfl, hx, rfl⟩
    · rw [countP_append, countP_singleton, if_neg hx, Nat.add_zero] at h
      obtain ⟨u, b, v, rfl, hb, hv⟩ := ih h
      refine ⟨u, b, v ++ [x], by simp, hb, ?_⟩
      rw [countP_append, hv, countP_singleton, if_neg hx]

/-- When `k` elements are held, one of them is less than a bound exactly when fewer than `k` of all
are as great. -/
theorem exists_topK_lt_iff {l : List β} (hfull : (l.topK k key).length = k) (t : κ) :
    (∃ c ∈ l.topK k key, key c < t) ↔ l.countP (fun c => decide (t ≤ key c)) < k := by
  obtain ⟨rest, hperm, hle⟩ := exists_append_topK_perm k key l
  rw [← hperm.countP_eq, countP_append]
  constructor
  · rintro ⟨c, hc, hlt⟩
    have hrest : rest.countP (fun c => decide (t ≤ key c)) = 0 :=
      countP_eq_zero.mpr fun r hr => by simpa using (hle r hr c hc).trans_lt hlt
    have hne : (l.topK k key).countP (fun c => decide (t ≤ key c)) ≠ (l.topK k key).length :=
      fun heq => absurd (of_decide_eq_true (countP_eq_length.mp heq c hc)) (not_le.mpr hlt)
    have hcount := countP_le_length (p := fun c => decide (t ≤ key c)) (l := l.topK k key)
    omega
  · intro hlt
    by_contra hnone
    have hall : (l.topK k key).countP (fun c => decide (t ≤ key c)) = (l.topK k key).length :=
      countP_eq_length.mpr fun c hc => decide_eq_true (not_lt.mp fun h => hnone ⟨c, hc, h⟩)
    omega

section Held

variable {l : List β} (hfull : (l.topK k key).length = k)

theorem Split.length_asGreat (hs : s ∈ l.splits) :
    (s.asGreat key).length = l.countP fun c => decide (key s.elem ≤ key c) := by
  rw [countP_eq_length_filter, mem_splits.mp hs]
  rfl

theorem Split.late_congr {t : Split β} (hs : s ∈ l.splits) (ht : t ∈ l.splits)
    (heq : key s.elem = key t.elem) : s.late k key = t.late k key := by
  rw [late, late, asGreat, asGreat, ← mem_splits.mp hs, ← mem_splits.mp ht, heq]

include hfull

/-- An element greater than one that is held is not moved by a new one. -/
theorem Split.Outlasts.snoc_of_lt (hs : s ∈ l.splits) (h : s.Outlasts k key) {c : β}
    (hc : c ∈ l.topK k key) (hlt : key c < key s.elem) : (s.snoc x).Outlasts k key := by
  have hroom : ¬ k ≤ (s.asGreat key).length := by
    rw [length_asGreat hs]
    exact not_le.mpr ((exists_topK_lt_iff hfull _).mp ⟨c, hc, hlt⟩)
  refine ⟨h.1, ?_⟩
  rw [late_snoc, if_neg fun hand => hroom hand.2]
  exact h.2

/-- The first of the least elements gives way to a greater one. -/
theorem Split.not_outlasts_snoc (hs : s ∈ l.splits)
    (hleast : ∀ c ∈ l.topK k key, key s.elem ≤ key c) (hlt : key s.elem < key x)
    (hfirst : ∀ t ∈ l.splits, t.Outlasts k key → key t.elem = key s.elem →
      s.before.length ≤ t.before.length) : ¬ (s.snoc x).Outlasts k key := by
  have hmany : k ≤ (s.asGreat key).length := by
    rw [length_asGreat hs]
    refine not_lt.mp fun hless => ?_
    obtain ⟨c, hc, hlt⟩ := (exists_topK_lt_iff hfull _).mpr hless
    exact absurd hlt (not_lt.mpr (hleast c hc))
  rintro ⟨hin, hlate⟩
  rw [late_snoc, if_pos ⟨hlt, hmany⟩] at hlate
  -- the last of the equal elements before it would be held too
  obtain ⟨u, b, v, hsplit, hb, hv⟩ := exists_last (Nat.lt_of_lt_of_le (Nat.succ_pos _) hlate)
  have hkey : key b = key s.elem := of_decide_eq_true hb
  have hbefore : s.before = u ++ b :: v := hsplit
  have ht : (⟨u, b, v ++ s.elem :: s.after⟩ : Split β) ∈ l.splits := by
    rw [mem_splits, mem_splits.mp hs, hbefore]
    simp
  have hcount : s.before.countP (fun c => decide (key c = key s.elem)) =
      u.countP (fun c => decide (key c = key s.elem)) + 1 := by
    have hv : v.countP (fun c => decide (key c = key s.elem)) = 0 := hv
    rw [hbefore, countP_append, countP_cons, hv, hkey, if_pos (by simp)]
  have hlen := hfirst _ ht ⟨?_, ?_⟩ hkey
  · rw [hbefore, length_append, length_cons] at hlen
    exact absurd hlen (by show ¬ _ ≤ u.length; omega)
  · show u.countP (fun c => decide (key b ≤ key c)) < k
    have hstart : u.countP (fun c => decide (key b ≤ key c)) ≤
        s.before.countP fun c => decide (key b ≤ key c) := by
      rw [hbefore, countP_append]
      exact Nat.le_add_right _ _
    rw [hkey] at hstart ⊢
    exact hstart.trans_lt hin
  · rw [late_congr ht hs hkey]
    show s.late k key ≤ u.countP fun c => decide (key c = key b)
    have hlate : s.late k key + 1 ≤ s.before.countP fun c => decide (key c = key s.elem) := hlate
    rw [hkey]
    omega

omit hfull in
/-- The later of equal elements goes on being held. -/
theorem Split.Outlasts.snoc_of_later {t : Split β} (hs : s ∈ l.splits) (ht : t ∈ l.splits)
    (h : s.Outlasts k key) (h' : t.Outlasts k key) (heq : key t.elem = key s.elem)
    (hstart : (s.before ++ [s.elem]) <+: t.before) : (t.snoc x).Outlasts k key := by
  refine ⟨h'.1, ?_⟩
  have hlate : (t.snoc x).late k key ≤ s.late k key + 1 := by
    rw [late_snoc, late_congr ht hs heq]
    split <;> omega
  obtain ⟨rest, hrest⟩ := hstart
  have hcount : s.before.countP (fun c => decide (key c = key s.elem)) + 1 ≤
      t.before.countP fun c => decide (key c = key t.elem) := by
    rw [← hrest, heq, countP_append, countP_append, countP_singleton, if_pos (by simp)]
    exact Nat.le_add_right _ _
  exact (hlate.trans (Nat.succ_le_succ h.2)).trans hcount

end Held

/-- A greater element takes the place of the first of the least ones, and nothing else moves. -/
theorem outlasting_replace {l : List β} (hfull : (l.topK k key).length = k)
    (ih : l.topK k key = l.outlasting k key) (hany : ∃ c ∈ l.topK k key, key c < key x) :
    (l.splits.filter fun s => decide ((s.snoc x).Outlasts k key)).map Split.elem =
      (l.topK k key).eraseLeast key := by
  obtain ⟨c, hc, hlt⟩ := hany
  obtain ⟨before, least, after, hheld, hbefore, hleast, herase⟩ :=
    exists_eraseLeast key (ne_nil_of_mem hc)
  have hparts := hheld
  rw [ih, outlasting, map_eq_append_iff] at hparts
  obtain ⟨early, rest, hfilter, rfl, hrest⟩ := hparts
  obtain ⟨s, later, rfl, rfl, rfl⟩ := map_eq_cons_iff.mp hrest
  have hmem : ∀ t ∈ early ++ s :: later, t ∈ l.splits ∧ t.Outlasts k key := fun t ht => by
    rw [← hfilter, mem_filter, decide_eq_true_iff] at ht
    exact ht
  have hheldMem : ∀ t ∈ early ++ s :: later, t.elem ∈ l.topK k key := fun t ht => by
    rw [hheld, ← map_cons, ← map_append]
    exact mem_map_of_mem ht
  have hsmem : s ∈ early ++ s :: later := by simp
  have horder : (early ++ s :: later).Pairwise fun s t => (s.before ++ [s.elem]) <+: t.before := by
    rw [← hfilter]
    exact (pairwise_splits l).filter _
  have hafter := (pairwise_cons.mp (pairwise_append.mp horder).2.1).1
  have hsplits : (l.splits.filter fun s => decide ((s.snoc x).Outlasts k key)) =
      (early ++ s :: later).filter fun s => decide ((s.snoc x).Outlasts k key) := by
    rw [← hfilter, filter_filter]
    refine filter_congr fun t _ => ?_
    by_cases ht : (t.snoc x).Outlasts k key
    · simp [ht, ht.of_snoc]
    · simp [ht]
  have hearly : ∀ t ∈ early, (t.snoc x).Outlasts k key := fun t ht => by
    have hmemt := hmem t (by simp [ht])
    exact hmemt.2.snoc_of_lt hfull hmemt.1 (hheldMem s hsmem) (hbefore _ (mem_map_of_mem ht))
  have hlater : ∀ t ∈ later, (t.snoc x).Outlasts k key := fun t ht => by
    have hmemt := hmem t (by simp [ht])
    rcases (hleast _ (hheldMem t (by simp [ht]))).lt_or_eq with hlt | heq
    · exact hmemt.2.snoc_of_lt hfull hmemt.1 (hheldMem s hsmem) hlt
    · exact (hmem s hsmem).2.snoc_of_later (hmem s hsmem).1 hmemt.1 hmemt.2 heq.symm
        (hafter t ht)
  have hfirst : ∀ t ∈ l.splits, t.Outlasts k key → key t.elem = key s.elem →
      s.before.length ≤ t.before.length := fun t ht hout heq => by
    have hmemt : t ∈ early ++ s :: later := by
      rw [← hfilter]
      exact mem_filter.mpr ⟨ht, decide_eq_true hout⟩
    rcases mem_append.mp hmemt with hmemt | hmemt
    · exact absurd heq (hbefore _ (mem_map_of_mem hmemt)).ne'
    · rcases mem_cons.mp hmemt with rfl | hmemt
      · exact le_rfl
      · have hlen := (hafter t hmemt).length_le
        rw [length_append, length_singleton] at hlen
        omega
  have hgone : ¬ (s.snoc x).Outlasts k key :=
    Split.not_outlasts_snoc hfull (hmem s hsmem).1 hleast ((hleast c hc).trans_lt hlt) hfirst
  rw [hsplits, herase, filter_append, filter_cons_of_neg (by simpa using hgone),
    filter_eq_self.mpr fun t ht => decide_eq_true (hearly t ht),
    filter_eq_self.mpr fun t ht => decide_eq_true (hlater t ht), map_append]

/-- **What is held is what outlasts the stream.** -/
theorem topK_eq (l : List β) : l.topK k key = l.outlasting k key := by
  induction l using reverseRecOn with
  | nil => rfl
  | append_singleton l x ih =>
    rw [topK_concat, outlasting_concat, topKStep]
    by_cases hroom : (l.topK k key).length < k
    · have hlen : (l ++ [x]).length ≤ k := by
        rw [length_topK] at hroom
        rw [length_append, length_singleton]
        omega
      have hall : (l.splits.filter fun s => decide ((s.snoc x).Outlasts k key)) =
          l.splits.filter fun s => decide (s.Outlasts k key) := by
        refine filter_congr fun s hs => ?_
        have hout : (s.snoc x).Outlasts k key := Split.outlasts_of_length
          (by rw [splits_concat]; exact mem_append_left _ (mem_map_of_mem hs)) hlen
        simp [hout, hout.of_snoc]
      have hin : l.countP (fun c => decide (key x ≤ key c)) < k :=
        countP_le_length.trans_lt (by rw [length_append, length_singleton] at hlen; omega)
      rw [if_pos hroom, if_pos hin, hall, ih]
      rfl
    · have hfull : (l.topK k key).length = k := by
        rw [length_topK] at hroom ⊢
        omega
      rw [if_neg hroom]
      by_cases hany : ∃ c ∈ l.topK k key, key c < key x
      · rw [if_pos (by simpa using hany), if_pos ((exists_topK_lt_iff hfull _).mp hany),
          outlasting_replace hfull ih hany]
      · have hsame : (l.splits.filter fun s => decide ((s.snoc x).Outlasts k key)) =
            l.splits.filter fun s => decide (s.Outlasts k key) := by
          refine filter_congr fun s hs => ?_
          by_cases hout : s.Outlasts k key
          · have hmem : s.elem ∈ l.topK k key := by
              rw [ih]
              exact mem_map_of_mem (mem_filter.mpr ⟨hs, decide_eq_true hout⟩)
            have hnot : ¬ key s.elem < key x := fun hlt => hany ⟨_, hmem, hlt⟩
            have hlate : (s.snoc x).late k key = s.late k key := by
              rw [Split.late_snoc, if_neg fun h => hnot h.1, Nat.add_zero]
            have hsnoc : (s.snoc x).Outlasts k key := ⟨hout.1, hlate ▸ hout.2⟩
            simp [hout, hsnoc]
          · have hsnoc : ¬ (s.snoc x).Outlasts k key := fun h => hout h.of_snoc
            simp [hout, hsnoc]
        rw [if_neg (by simpa using hany), if_neg fun h => hany ((exists_topK_lt_iff hfull _).mpr h),
          hsame, append_nil, ih]
        rfl

/-- What is said of the elements held, by where they are in the stream. -/
theorem forall_mem_topK_iff (l : List β) (P : β → Prop) :
    (∀ b ∈ l.topK k key, P b) ↔ ∀ s ∈ l.splits, s.Outlasts k key → P s.elem := by
  rw [topK_eq, outlasting, forall_mem_map]
  simp only [mem_filter, decide_eq_true_iff, and_imp]

/-- **A relation of the elements held, two by two**, by where they are in the stream. -/
theorem pairwise_topK_iff (l : List β) (R : β → β → Prop) :
    (l.topK k key).Pairwise R ↔ l.splits.Pairwise fun s t =>
      s.Outlasts k key → t.Outlasts k key → R s.elem t.elem := by
  rw [topK_eq, outlasting, pairwise_map, pairwise_filter]
  simp only [decide_eq_true_iff]

end List
