import Mathlib.Data.List.MinMax
import Mathlib.Data.Multiset.AddSub
import Mathlib.Data.Multiset.MapFold
import Mathlib.Data.Prod.Lex

/-!
# The greatest elements of a stream

A bounded heap keeps the `k` greatest elements of a stream: while there is room an element is
added, and after that it takes the place of the least element held, if it is greater. What it holds
is described by a list in the order of arrival, where the element that gives way is the first of the
least ones.

A heap that gives up its least element first is known by its documented operations. The order it is
iterated in is left open, so a statement about every lawful heap is one about every order.

## Main definitions

* `List.topK` — the elements held, in the order of arrival
* `Multiset.IsTop` — some of the greatest elements
* `MinHeap`, `MinHeap.Lawful` — a heap, and what its operations promise
* `MinHeap.ofList` — one that is iterated in a given order
* `MinHeap.Tracks` — a heap of stamped elements holds a list

## Main results

* `List.topK_sublist`, `List.length_topK`, `List.exists_append_topK_perm`
* `MinHeap.Tracks.push`, `MinHeap.Tracks.pop`, `MinHeap.Tracks.any_peek`
-/

namespace List

variable {β κ : Type*} [LinearOrder κ] {k : ℕ} {key : β → κ}

/-! ### What is held -/

/-- Drop the first of the least elements. -/
def eraseLeast (key : β → κ) (held : List β) : List β :=
  held.eraseP fun b => held.all fun c => decide (key b ≤ key c)

/-- One element arrives. -/
def topKStep (k : ℕ) (key : β → κ) (held : List β) (b : β) : List β :=
  if held.length < k then held ++ [b]
  else if held.any fun c => decide (key c < key b) then held.eraseLeast key ++ [b]
  else held

/-- What is held of a stream, in the order of arrival. -/
def topK (k : ℕ) (key : β → κ) (l : List β) : List β := l.foldl (topKStep k key) []

@[simp] theorem topK_nil : ([] : List β).topK k key = [] := rfl

@[simp] theorem topK_concat (l : List β) (b : β) :
    (l ++ [b]).topK k key = topKStep k key (l.topK k key) b := by
  simp [topK]

/-- What is dropped is the first of the least elements. -/
theorem exists_eraseLeast (key : β → κ) {held : List β} (hne : held ≠ []) :
    ∃ before least after, held = before ++ least :: after ∧
      (∀ c ∈ before, key least < key c) ∧ (∀ c ∈ held, key least ≤ key c) ∧
      held.eraseLeast key = before ++ after := by
  obtain ⟨m, hm⟩ := Option.ne_none_iff_exists'.mp (mt argmin_eq_none.mp hne : held.argmin key ≠ none)
  have hmin : held.all (fun c => decide (key m ≤ key c)) = true :=
    all_eq_true.mpr fun c hc => decide_eq_true (le_of_mem_argmin hc hm)
  obtain ⟨least, before, after, hbefore, hleast, hheld, herase⟩ :=
    exists_of_eraseP (p := fun b => held.all fun c => decide (key b ≤ key c)) (argmin_mem hm) hmin
  have hle : ∀ c ∈ held, key least ≤ key c := fun c hc =>
    of_decide_eq_true (all_eq_true.mp hleast c hc)
  refine ⟨before, least, after, hheld, fun c hc => ?_, hle, herase⟩
  by_contra hnot
  refine hbefore c hc (all_eq_true.mpr fun d hd => decide_eq_true ?_)
  exact (not_lt.mp hnot).trans (hle d hd)

theorem eraseLeast_append {before after : List β} {least : β}
    (hbefore : ∀ c ∈ before, key least < key c) (hafter : ∀ c ∈ after, key least ≤ key c) :
    (before ++ least :: after).eraseLeast key = before ++ after := by
  rw [eraseLeast, eraseP_append_right _ fun c hc => ?_]
  · rw [eraseP_cons_of_pos]
    refine all_eq_true.mpr fun c hc => decide_eq_true ?_
    rcases mem_append.mp hc with hc | hc
    · exact (hbefore c hc).le
    · rcases mem_cons.mp hc with rfl | hc
      · exact le_rfl
      · exact hafter c hc
  · intro hall
    have hle := of_decide_eq_true (all_eq_true.mp hall least (by simp))
    exact absurd (hbefore c hc) (not_lt.mpr hle)

theorem topKStep_sublist {held l : List β} (h : held.Sublist l) (b : β) :
    (topKStep k key held b).Sublist (l ++ [b]) := by
  rw [topKStep]
  split
  · exact h.append (Sublist.refl _)
  split
  · exact (eraseP_sublist.trans h).append (Sublist.refl _)
  · exact h.trans (sublist_append_left _ _)

theorem topK_sublist (k : ℕ) (key : β → κ) (l : List β) : (l.topK k key).Sublist l := by
  induction l using reverseRecOn with
  | nil => exact Sublist.refl _
  | append_singleton l b ih =>
    rw [topK_concat]
    exact topKStep_sublist ih b

/-- **As many as there are, up to `k`.** -/
theorem length_topK (l : List β) : (l.topK k key).length = min k l.length := by
  induction l using reverseRecOn with
  | nil => simp
  | append_singleton l b ih =>
    rw [topK_concat, topKStep, length_append, length_singleton]
    split
    · rw [length_append, length_singleton]
      omega
    split
    · next hany =>
      obtain ⟨c, hc, -⟩ := any_eq_true.mp hany
      obtain ⟨before, least, after, hheld, -, -, herase⟩ :=
        exists_eraseLeast key (ne_nil_of_mem hc)
      have hlen := congrArg length hheld
      rw [length_append, length_cons] at hlen
      rw [herase, length_append, length_append, length_singleton]
      omega
    · omega

/-- **What is left out is no greater than what is held.** -/
theorem exists_append_topK_perm (k : ℕ) (key : β → κ) (l : List β) :
    ∃ rest, (rest ++ l.topK k key).Perm l ∧
      ∀ r ∈ rest, ∀ c ∈ l.topK k key, key r ≤ key c := by
  induction l using reverseRecOn with
  | nil => exact ⟨[], Perm.refl _, by simp⟩
  | append_singleton l b ih =>
    obtain ⟨rest, hperm, hle⟩ := ih
    rw [topK_concat, topKStep]
    split
    · next hroom =>
      have hrest : rest = [] := by
        have hlen := hperm.length_eq
        rw [length_append, length_topK] at hlen
        rw [length_topK] at hroom
        exact length_eq_zero_iff.mp (by omega)
      subst hrest
      exact ⟨[], by simpa using hperm.append_right [b], by simp⟩
    split
    · next hany =>
      obtain ⟨c, hc, hlt⟩ := any_eq_true.mp hany
      obtain ⟨before, least, after, hheld, -, hleast, herase⟩ :=
        exists_eraseLeast key (ne_nil_of_mem hc)
      have hsub : ∀ d ∈ before ++ after, d ∈ l.topK k key := fun d hd => by
        rw [hheld, mem_append, mem_cons]
        exact (mem_append.mp hd).imp_right Or.inr
      have hb : key least < key b := (hleast c hc).trans_lt (of_decide_eq_true hlt)
      rw [herase]
      refine ⟨rest ++ [least], ?_, fun r hr d hd => ?_⟩
      · rw [hheld] at hperm
        calc rest ++ [least] ++ (before ++ after ++ [b])
            = rest ++ (least :: (before ++ after)) ++ [b] := by simp
          _ ~ rest ++ (before ++ least :: after) ++ [b] :=
            (Perm.append_left rest perm_middle.symm).append_right [b]
          _ ~ l ++ [b] := hperm.append_right [b]
      · have hr : key r ≤ key least ∧ ∀ e ∈ l.topK k key, key r ≤ key e := by
          rcases mem_append.mp hr with hr | hr
          · exact ⟨hle r hr least (by rw [hheld]; simp), hle r hr⟩
          · rw [mem_singleton.mp hr]
            exact ⟨le_rfl, hleast⟩
        rcases mem_append.mp hd with hd | hd
        · exact hr.2 d (hsub d hd)
        · rw [mem_singleton.mp hd]
          exact hr.1.trans hb.le
    · next hany =>
      refine ⟨rest ++ [b], ?_, fun r hr c hc => ?_⟩
      · rw [append_assoc]
        refine Perm.trans (Perm.append_left rest perm_append_comm) ?_
        rw [← append_assoc]
        exact hperm.append_right [b]
      · rcases mem_append.mp hr with hr | hr
        · exact hle r hr c hc
        · rw [mem_singleton.mp hr]
          by_contra hnot
          exact hany (any_eq_true.mpr ⟨c, hc, decide_eq_true (not_le.mp hnot)⟩)

end List

/-! ### Some of the greatest -/

namespace Multiset

variable {β γ κ : Type*} [LinearOrder κ] {k : Option ℕ} {key : β → κ} {all top : Multiset β}

/-- As many of the greatest elements as there may be: what is left out is no greater. Which of the
elements of one key are among them is left open. -/
def IsTop (k : Option ℕ) (key : β → κ) (all top : Multiset β) : Prop :=
  ∃ rest, all = rest + top ∧ (∀ r ∈ rest, ∀ c ∈ top, key r ≤ key c) ∧
    top.card = k.elim all.card (min · all.card)

theorem isTop_topK (k : ℕ) (key : β → κ) (l : List β) : IsTop (some k) key ↑l ↑(l.topK k key) := by
  obtain ⟨rest, hperm, hle⟩ := List.exists_append_topK_perm k key l
  exact ⟨rest, (coe_eq_coe.mpr hperm).symm, hle, List.length_topK l⟩

theorem isTop_none : IsTop none key all all := ⟨0, (Multiset.zero_add all).symm, by simp, rfl⟩

/-- Nothing at all, where nothing may be held. -/
theorem isTop_zero : IsTop (some 0) key all 0 :=
  ⟨all, (Multiset.add_zero all).symm, by simp, (Nat.zero_min _).symm⟩

theorem IsTop.le (h : IsTop k key all top) : top ≤ all := by
  obtain ⟨rest, rfl, -⟩ := h
  exact Multiset.le_add_left top rest

/-- The keys may be read off after a change of the elements. -/
theorem IsTop.map (f : β → γ) {key' : γ → κ} (hkey : ∀ b, key' (f b) = key b)
    (h : IsTop k key all top) : IsTop k key' (all.map f) (top.map f) := by
  obtain ⟨rest, rfl, hle, hcard⟩ := h
  refine ⟨rest.map f, Multiset.map_add f rest top, fun r hr c hc => ?_, by simpa using hcard⟩
  obtain ⟨b, hb, rfl⟩ := mem_map.mp hr
  obtain ⟨d, hd, rfl⟩ := mem_map.mp hc
  rw [hkey, hkey]
  exact hle b hb d hd

end Multiset

/-! ### Heaps -/

universe u

/-- A heap that gives up its least element first, as a caller sees it. -/
structure MinHeap (α : Type u) where
  Heap : Type u
  empty : Heap
  push : Heap → α → Heap
  peek : Heap → Option α
  pop : Heap → Heap
  /-- The elements, in the order the heap is iterated in. -/
  toList : Heap → List α

namespace MinHeap

variable {α : Type u} {β κ : Type*} [LinearOrder κ]

/-- **What the operations promise**: a heap holds what was pushed and not popped, and `peek` and
`pop` are about a least element of it. -/
structure Lawful (H : MinHeap α) (key : α → κ) : Prop where
  toList_empty : H.toList H.empty = []
  toList_push : ∀ h a, (H.toList (H.push h a)).Perm (a :: H.toList h)
  peek_eq_none : ∀ h, H.peek h = none → H.toList h = []
  key_le_of_peek : ∀ {h a}, H.peek h = some a → ∀ b ∈ H.toList h, key a ≤ key b
  toList_pop : ∀ {h a}, H.peek h = some a → (H.toList h).Perm (a :: H.toList (H.pop h))

/-- A heap kept as a list, and iterated in an order of its own. -/
def ofList (key : α → κ) (order : List α → List α) : MinHeap α where
  Heap := List α
  empty := []
  push h a := a :: h
  peek h := h.find? fun b => h.all fun c => decide (key b ≤ key c)
  pop h := h.eraseLeast key
  toList := order

/-- The element given up is the first of the least ones. -/
theorem exists_of_find? (key : α → κ) {h : List α} {a : α}
    (ha : (h.find? fun b => h.all fun c => decide (key b ≤ key c)) = some a) :
    (∀ c ∈ h, key a ≤ key c) ∧ h.Perm (a :: h.eraseLeast key) := by
  obtain ⟨hleast, before, after, heq, hbefore⟩ := List.find?_eq_some_iff_append.mp ha
  refine ⟨fun c hc => of_decide_eq_true (List.all_eq_true.mp hleast c hc), ?_⟩
  have herase : h.eraseLeast key = before ++ after := by
    calc h.eraseLeast key
        = (before ++ a :: after).eraseP fun b => h.all fun c => decide (key b ≤ key c) := by
          rw [← heq]
          rfl
      _ = before ++ (a :: after).eraseP fun b => h.all fun c => decide (key b ≤ key c) :=
          List.eraseP_append_right _ fun b hb => by simpa using hbefore b hb
      _ = before ++ after := by rw [List.eraseP_cons, hleast]; rfl
  rw [herase]
  exact (List.Perm.of_eq heq).trans List.perm_middle

theorem lawful_ofList (key : α → κ) {order : List α → List α} (horder : ∀ l, (order l).Perm l) :
    (ofList key order).Lawful key where
  toList_empty := (horder []).eq_nil
  toList_push (h : List α) a := (horder (a :: h)).trans ((horder h).symm.cons a)
  peek_eq_none (h : List α) hnone := by
    by_contra hne
    have hnil : h ≠ [] := fun hnil => hne ((congrArg order hnil).trans (horder []).eq_nil)
    obtain ⟨before, least, after, heq, -, hle, -⟩ := List.exists_eraseLeast key hnil
    refine List.find?_eq_none.mp hnone least (by rw [heq]; simp) (List.all_eq_true.mpr fun c hc => ?_)
    exact decide_eq_true (hle c hc)
  key_le_of_peek {h a} ha b hb :=
    (exists_of_find? key ha).1 b ((horder h).mem_iff.mp hb)
  toList_pop {h a} ha :=
    ((horder h).trans (exists_of_find? key ha).2).trans ((horder _).symm.cons a)

/-- The heap holds the elements of a list, each stamped with a number: in the order of the list,
and all of them less than the next. -/
def Tracks (H : MinHeap α) (mk : ℕ → β → α) (acc : H.Heap × ℕ) (held : List β) : Prop :=
  ∃ stamped : List (ℕ × β), stamped.map Prod.snd = held ∧
    (stamped.map Prod.fst).Pairwise (· < ·) ∧ (∀ p ∈ stamped, p.1 < acc.2) ∧
    (H.toList acc.1).Perm (stamped.map fun p => mk p.1 p.2)

namespace Tracks

variable {H : MinHeap α} {key : α → κ ×ₗ ℕ} {mk : ℕ → β → α} {time : β → κ}
  {acc : H.Heap × ℕ} {held : List β}

theorem empty (hH : H.Lawful key) : H.Tracks mk (H.empty, 0) [] :=
  ⟨[], rfl, List.Pairwise.nil, by simp, by rw [hH.toList_empty]; rfl⟩

theorem length_toList (h : H.Tracks mk acc held) : (H.toList acc.1).length = held.length := by
  obtain ⟨stamped, rfl, -, -, hperm⟩ := h
  rw [hperm.length_eq, List.length_map, List.length_map]

theorem push (hH : H.Lawful key) (h : H.Tracks mk acc held) (b : β) :
    H.Tracks mk (H.push acc.1 (mk acc.2 b), acc.2 + 1) (held ++ [b]) := by
  obtain ⟨stamped, rfl, hlt, hfresh, hperm⟩ := h
  refine ⟨stamped ++ [(acc.2, b)], by simp, ?_, fun p hp => ?_, ?_⟩
  · rw [List.map_append, List.pairwise_append]
    refine ⟨hlt, List.pairwise_singleton _ _, fun n hn m hm => ?_⟩
    obtain ⟨p, hp, rfl⟩ := List.mem_map.mp hn
    rw [List.mem_singleton.mp hm]
    exact hfresh p hp
  · rcases List.mem_append.mp hp with hp | hp
    · exact (hfresh p hp).trans (Nat.lt_succ_self _)
    · rw [List.mem_singleton.mp hp]
      exact Nat.lt_succ_self _
  · rw [List.map_append]
    exact (hH.toList_push _ _).trans ((hperm.cons _).trans (List.perm_append_singleton _ _).symm)

variable (hkey : ∀ n b, key (mk n b) = toLex (time b, n))
include hkey

/-- The least element held comes first in the list among those of its time. -/
theorem exists_peek (hH : H.Lawful key) (h : H.Tracks mk acc held) (hne : held ≠ []) :
    ∃ n before least after, H.peek acc.1 = some (mk n least) ∧ held = before ++ least :: after ∧
      (∀ c ∈ before, time least < time c) ∧ (∀ c ∈ after, time least ≤ time c) ∧
      H.Tracks mk (H.pop acc.1, acc.2) (before ++ after) := by
  obtain ⟨stamped, rfl, hlt, hfresh, hperm⟩ := h
  obtain ⟨a, ha⟩ : ∃ a, H.peek acc.1 = some a := by
    refine Option.ne_none_iff_exists'.mp fun hnone => hne ?_
    have hnil := hH.peek_eq_none _ hnone
    rw [hnil] at hperm
    simpa using hperm.symm.eq_nil
  have hmem : a ∈ stamped.map fun p => mk p.1 p.2 :=
    hperm.mem_iff.mp ((hH.toList_pop ha).mem_iff.mpr List.mem_cons_self)
  obtain ⟨p, hp, rfl⟩ := List.mem_map.mp hmem
  have hleast : ∀ q ∈ stamped, toLex (time p.2, p.1) ≤ toLex (time q.2, q.1) := fun q hq => by
    rw [← hkey, ← hkey]
    exact hH.key_le_of_peek ha _ (hperm.mem_iff.mpr (List.mem_map_of_mem hq))
  obtain ⟨before, after, rfl⟩ := List.append_of_mem hp
  rw [List.map_append, List.map_cons, List.pairwise_append, List.pairwise_cons] at hlt
  refine ⟨p.1, before.map Prod.snd, p.2, after.map Prod.snd, ha, by simp, ?_, ?_,
    before ++ after, by simp, ?_, ?_, ?_⟩
  · intro c hc
    obtain ⟨q, hq, rfl⟩ := List.mem_map.mp hc
    -- an element before the least has a smaller stamp, so its time has to be greater
    have hstamp : q.1 < p.1 := hlt.2.2 _ (List.mem_map_of_mem hq) _ List.mem_cons_self
    rcases Prod.Lex.toLex_le_toLex.mp (hleast q (by simp [hq])) with hlt' | ⟨-, hle⟩
    · exact hlt'
    · exact absurd hle (not_le.mpr hstamp)
  · intro c hc
    obtain ⟨q, hq, rfl⟩ := List.mem_map.mp hc
    rcases Prod.Lex.toLex_le_toLex.mp (hleast q (by simp [hq])) with hlt' | ⟨heq, -⟩
    · exact hlt'.le
    · exact heq.le
  · rw [List.map_append, List.pairwise_append]
    exact ⟨hlt.1, hlt.2.1.2, fun n hn m hm => hlt.2.2 n hn m (List.mem_cons_of_mem _ hm)⟩
  · intro q hq
    refine hfresh q ?_
    rw [List.mem_append, List.mem_cons]
    exact (List.mem_append.mp hq).imp_right Or.inr
  · have hcons := (hH.toList_pop ha).symm.trans hperm
    rw [List.map_append, List.map_cons] at hcons
    rw [List.map_append]
    exact (hcons.trans List.perm_middle).cons_inv

theorem pop (hH : H.Lawful key) (h : H.Tracks mk acc held) (hne : held ≠ []) :
    H.Tracks mk (H.pop acc.1, acc.2) (held.eraseLeast time) := by
  obtain ⟨n, before, least, after, -, rfl, hbefore, hafter, hpop⟩ := h.exists_peek hkey hH hne
  rwa [List.eraseLeast_append hbefore hafter]

/-- The element the heap gives up next is less than a time exactly when some element held is. -/
theorem any_peek (hH : H.Lawful key) (h : H.Tracks mk acc held) (t : κ) :
    (H.peek acc.1).any (fun a => decide ((ofLex (key a)).1 < t)) =
      held.any fun b => decide (time b < t) := by
  by_cases hne : held = []
  · subst hne
    have hnone : H.peek acc.1 = none := by
      by_contra hsome
      obtain ⟨a, ha⟩ := Option.ne_none_iff_exists'.mp hsome
      have hlen := (hH.toList_pop ha).length_eq
      rw [h.length_toList] at hlen
      simp at hlen
    rw [hnone]
    rfl
  · obtain ⟨n, before, least, after, hpeek, rfl, hbefore, hafter, -⟩ := h.exists_peek hkey hH hne
    rw [hpeek, Option.any_some, hkey, Bool.eq_iff_iff, List.any_eq_true, decide_eq_true_iff]
    constructor
    · intro hlt
      exact ⟨least, by simp, decide_eq_true hlt⟩
    · rintro ⟨b, hb, hlt⟩
      refine lt_of_le_of_lt ?_ (of_decide_eq_true hlt)
      rcases List.mem_append.mp hb with hb | hb
      · exact (hbefore b hb).le
      · rcases List.mem_cons.mp hb with rfl | hb
        · exact le_rfl
        · exact hafter b hb

end Tracks

end MinHeap
