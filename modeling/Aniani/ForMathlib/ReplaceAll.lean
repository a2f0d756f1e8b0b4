import Mathlib.Data.List.Infix

/-!
# Replacing the occurrences of a pattern

Occurrences are replaced from left to right, and what is put in is not looked at again. Elements are
compared by their images under a function, so that they may carry more than what is compared.

## Main definitions

* `List.replaceAll` — the replacement

## Main results

* `List.map_replaceAll` — what the elements carry makes no difference
* `List.countP_replaceAll_lt` — what an occurrence takes away is gone
* `String.toList_replace` — the replacement in a string
-/

variable {α β : Type*} [DecidableEq β]

/-- Replace the occurrences of a pattern that is not empty. -/
def List.replaceAll (f : α → β) (pat : List β) (rep : List α) : List α → List α
  | [] => []
  | a :: s =>
    if pat.isPrefixOf ((a :: s).map f) then rep ++ replaceAll f pat rep (s.drop (pat.length - 1))
    else a :: replaceAll f pat rep s
termination_by s => s.length

namespace List

variable {f : α → β} {pat : List β} {rep : List α}

@[simp]
theorem replaceAll_nil : replaceAll f pat rep [] = [] := by rw [replaceAll]

theorem replaceAll_append_of_eq {m : List α} (hm : m.map f = pat) (hne : pat ≠ []) (s : List α) :
    replaceAll f pat rep (m ++ s) = rep ++ replaceAll f pat rep s := by
  subst hm
  obtain ⟨a, m, rfl⟩ : ∃ a m', m = a :: m' :=
    exists_cons_of_ne_nil fun hnil => hne (map_eq_nil_iff.mpr hnil)
  have hprefix : ((a :: m).map f).isPrefixOf ((a :: (m ++ s)).map f) = true := by
    refine List.isPrefixOf_iff_prefix.mpr ?_
    rw [← cons_append, map_append]
    exact prefix_append _ _
  rw [cons_append, replaceAll, if_pos hprefix, length_map, length_cons, Nat.add_sub_cancel,
    drop_left]

theorem replaceAll_cons_of_not_found {a : α} {s : List α} (h : ¬ pat <+: (a :: s).map f) :
    replaceAll f pat rep (a :: s) = a :: replaceAll f pat rep s := by
  rw [replaceAll, if_neg fun hp => h (List.isPrefixOf_iff_prefix.mp hp)]

/-- Where no occurrence starts, nothing is replaced. -/
theorem replaceAll_append_of_not_found {l s : List α}
    (h : ∀ l₁ a l₂, l = l₁ ++ a :: l₂ → ¬ pat <+: (a :: (l₂ ++ s)).map f) :
    replaceAll f pat rep (l ++ s) = l ++ replaceAll f pat rep s := by
  induction l with
  | nil => rfl
  | cons a l ih =>
    have hrest := ih fun l₁ b l₂ hl => h (a :: l₁) b l₂ (by rw [hl]; rfl)
    rw [cons_append, replaceAll_cons_of_not_found (h [] a l rfl), hrest]
    rfl

omit [DecidableEq β] in
/-- An occurrence at the start of a list. -/
theorem exists_append_of_prefix_map {s : List α} (h : pat <+: s.map f) :
    ∃ m r, s = m ++ r ∧ m.map f = pat := by
  obtain ⟨r, hr⟩ := h
  obtain ⟨m, r', rfl, hm, -⟩ := map_eq_append_iff.mp hr.symm
  exact ⟨m, r', rfl, hm⟩

/-- To prove a property of every list, take away the occurrences from left to right. -/
@[elab_as_elim]
theorem replaceAll_induction {motive : List α → Prop} (f : α → β) (pat : List β)
    (hne : pat ≠ []) (nil : motive [])
    (found : ∀ m s, m.map f = pat → motive s → motive (m ++ s))
    (cons : ∀ a s, ¬ pat <+: (a :: s).map f → motive s → motive (a :: s)) (s : List α) :
    motive s := by
  induction s using replaceAll.induct f pat with
  | case1 => exact nil
  | case2 a s hprefix ih =>
    obtain ⟨m, r, hs, hm⟩ := exists_append_of_prefix_map (List.isPrefixOf_iff_prefix.mp hprefix)
    obtain ⟨b, m, rfl⟩ : ∃ b m', m = b :: m' :=
      exists_cons_of_ne_nil fun hnil => hne (by rw [← hm, hnil, map_nil])
    rw [hs]
    refine found _ r hm ?_
    rw [cons_append] at hs
    obtain ⟨-, rfl⟩ := cons_eq_cons.mp hs
    rwa [← hm, length_map, length_cons, Nat.add_sub_cancel, drop_left] at ih
  | case3 a s hprefix ih => exact cons a s (fun h => hprefix (List.isPrefixOf_iff_prefix.mpr h)) ih

/-- **What the elements carry** makes no difference. -/
theorem map_replaceAll (hne : pat ≠ []) (s : List α) :
    (replaceAll f pat rep s).map f = replaceAll id pat (rep.map f) (s.map f) := by
  induction s using replaceAll_induction f pat hne with
  | nil => rw [replaceAll_nil, map_nil, replaceAll_nil]
  | found m s hm ih =>
    rw [replaceAll_append_of_eq hm hne, map_append, map_append, ih,
      replaceAll_append_of_eq (by rw [map_id, hm]) hne]
  | cons a s hprefix ih =>
    rw [replaceAll_cons_of_not_found hprefix, map_cons, map_cons, ih,
      replaceAll_cons_of_not_found (by rwa [map_id, ← map_cons])]

/-- What is not put in becomes no more. -/
theorem countP_replaceAll_le (hne : pat ≠ []) {p : α → Bool} (hrep : rep.countP p = 0)
    (s : List α) : (replaceAll f pat rep s).countP p ≤ s.countP p := by
  induction s using replaceAll_induction f pat hne with
  | nil => rw [replaceAll_nil]
  | found m s hm ih =>
    rw [replaceAll_append_of_eq hm hne, countP_append, countP_append, hrep]
    omega
  | cons a s hprefix ih =>
    rw [replaceAll_cons_of_not_found hprefix, countP_cons, countP_cons]
    omega

/-- **What an occurrence takes away** is gone, where occurrences do not overlap. -/
theorem countP_replaceAll_lt {c : β} {cs : List β} (hc : c ∉ cs) {p : α → Bool}
    (hrep : rep.countP p = 0) {l m r : List α} (hm : m.map f = c :: cs) (hp : 0 < m.countP p) :
    (replaceAll f (c :: cs) rep (l ++ (m ++ r))).countP p < (l ++ (m ++ r)).countP p := by
  have hne : m ≠ [] := fun hnil => absurd hm (by simp [hnil])
  generalize hs : l ++ (m ++ r) = s
  induction s using replaceAll_induction f (c :: cs) (cons_ne_nil c cs) generalizing l with
  | nil => exact absurd (append_eq_nil_iff.mp (append_eq_nil_iff.mp hs).2).1 hne
  | found m' s hm' ih =>
    rw [replaceAll_append_of_eq hm' (cons_ne_nil c cs), countP_append, countP_append, hrep]
    obtain ⟨k, rfl, hk⟩ | ⟨k, rfl, hk⟩ := append_eq_append_iff.mp hs
    · cases l with
      | nil =>
        -- the occurrence is the one that is found
        obtain ⟨rfl, rfl⟩ := append_inj hk (by
          rw [← length_map f, hm, ← hm', length_map, nil_append])
        have hle := countP_replaceAll_le (cons_ne_nil c cs) hrep (f := f) r
        rw [nil_append]
        omega
      | cons b l =>
        cases k with
        | nil =>
          have hlt := ih (l := []) hk
          omega
        | cons a k =>
          -- it would start within the one that is found
          obtain ⟨a', m, rfl⟩ := exists_cons_of_ne_nil hne
          obtain rfl : a' = a := (cons.inj hk).1
          obtain ⟨hb, hcs⟩ := cons.inj hm'
          have hmem : f a' ∈ cs := by
            rw [← hcs]
            exact mem_map_of_mem (mem_append_right _ mem_cons_self)
          exact absurd ((cons.inj hm).1 ▸ hmem) hc
    · have hlt := ih hk.symm
      omega
  | cons a s hprefix ih =>
    rw [replaceAll_cons_of_not_found hprefix, countP_cons, countP_cons]
    cases l with
    | nil =>
      refine absurd ?_ hprefix
      rw [← hs, nil_append, map_append, hm]
      exact prefix_append _ _
    | cons b l =>
      have hlt := ih (cons.inj hs).2
      omega

end List

open String.Slice.Pattern Model in
/-- The steps of a search, each of them a match or a part without one. -/
theorem String.toList_foldl_searchStep {pat : String} (hpat : pat ≠ "") (rep : String) {s : Slice}
    {g : String → SearchStep s → String}
    (hmatched : ∀ sofar p q, g sofar (.matched p q) = sofar ++ rep)
    (hrejected : ∀ sofar p q, g sofar (.rejected p q) = sofar ++ (s.slice! p q).copy)
    {p : s.Pos} {steps : List (SearchStep s)} (h : IsValidSearchFrom pat p steps)
    {t₁ t₂ : String} (ht : p.Splits t₁ t₂) (sofar : String) :
    (steps.foldl g sofar).toList =
      sofar.toList ++ List.replaceAll id pat.toList rep.toList t₂.toList := by
  have hne : pat.toList ≠ [] := by simpa using hpat
  induction h generalizing t₁ t₂ sofar with
  | endPos =>
    obtain ⟨_, rfl⟩ := Slice.splits_endPos_iff.mp ht
    simp
  | @matched l startPos endPos hmatch hrest ih =>
    obtain ⟨u₁, u₂, hstart, hend⟩ := ForwardStringSearcher.isLongestMatchAt_iff_splits.mp hmatch
    obtain rfl := ht.eq_right hstart
    rw [List.foldl_cons, ih hend, hmatched, String.toList_append, String.toList_append,
      List.replaceAll_append_of_eq (List.map_id _) hne, List.append_assoc]
  | @mismatched l startPos endPos hlt hnot hrest ih =>
    have hend := endPos.splits
    obtain ⟨t₃, -, h₁, h₂⟩ := (ht.lt_iff_exists_eq_append hend).mp hlt
    have hslice : (s.slice! startPos endPos).copy = t₃ := by
      obtain ⟨hle, hcopy⟩ := Slice.copy_slice_eq_iff_splits.mpr ⟨t₁, _, h₂ ▸ ht, h₁ ▸ hend⟩
      rwa [Slice.slice_eq_slice!] at hcopy
    rw [List.foldl_cons, ih hend, hrejected, hslice, String.toList_append, h₂, String.toList_append,
      List.replaceAll_append_of_not_found, List.append_assoc]
    intro l₁ a l₂ ht₃ hprefix
    obtain ⟨u, hu⟩ := hprefix
    rw [List.map_id] at hu
    -- a position in the rejected part
    have hcopy : s.copy = (t₁ ++ String.ofList l₁) ++
        (String.ofList (a :: l₂) ++ (s.sliceFrom endPos).copy) := by
      rw [ht.eq_append, h₂, ← String.toList_inj]
      simp [ht₃]
    have hpos := Slice.Pos.splits_ofEqAppend hcopy
    refine hnot (Slice.Pos.ofEqAppend hcopy) ?_ ?_ ?_
    · exact (ht.le_iff_exists_eq_append hpos).mpr ⟨String.ofList l₁, rfl, by
        rw [h₂, ← String.toList_inj]
        simp [ht₃]⟩
    · exact (hpos.lt_iff_exists_eq_append hend).mpr ⟨String.ofList (a :: l₂), by simp, by
        rw [h₁, ← String.toList_inj]
        simp [ht₃], rfl⟩
    · refine ForwardStringSearcher.matchesAt_iff_splits.mpr
        ⟨t₁ ++ String.ofList l₁, String.ofList u, ?_⟩
      have htail : pat ++ String.ofList u =
          String.ofList (a :: l₂) ++ (s.sliceFrom endPos).copy := by
        rw [← String.toList_inj]
        simp [hu]
      rw [htail]
      exact hpos

/-- **The replacement in a string.** -/
theorem String.toList_replace {pat : String} (hpat : pat ≠ "") (rep s : String) :
    (s.replace pat rep).toList = List.replaceAll id pat.toList rep.toList s.toList := by
  have hlawful := Slice.Pattern.Model.ForwardStringSearcher.lawfulToForwardSearcherModel hpat
  have hvalid := hlawful.isValidSearchFrom_toList s.toSlice
  rw [String.replace, Slice.replace, ← Std.Iter.foldl_toList]
  refine (String.toList_foldl_searchStep hpat rep (fun sofar p q => ?_)
    (fun sofar p q => rfl) hvalid (Slice.splits_startPos _) "").trans ?_
  · exact congrArg (sofar ++ ·) copy_toSlice
  · simp
