import Aniani.ForMathlib.SortedList
import Mathlib.Data.Finset.Card
import Mathlib.Data.List.Dedup

/-!
# Groups in the order of their keys

A list is filed under keys, as in a map that is ordered by its keys: each key once, in order, with
what has it. The groups of a part of the list are the groups of the list, cut to the part, less
those that come out empty.

## Main definitions

* `List.sortedKeys`, `List.sortedGroups`

## Main results

* `List.mem_sortedKeys`
* `List.sortedGroups_filterMap` — the groups of a part
* `List.map_sortedGroups_perm_iff` — the groups under coarser keys
-/

namespace List

variable {α β κ ω : Type*} [LinearOrder ω]

/-- Two lists sorted by an injective key without repetitions are equal if they have the same
elements. -/
theorem SortedBy.eq_of_mem_iff {ord : κ → ω} (hinj : Function.Injective ord) {l l' : List κ}
    (hl : SortedBy ord l) (hl' : SortedBy ord l') (hn : l.Nodup) (hn' : l'.Nodup)
    (hmem : ∀ k, k ∈ l ↔ k ∈ l') : l = l' :=
  ((perm_ext_iff_of_nodup hn hn').mpr hmem).eq_of_pairwise
    (fun _ _ _ _ h h' => hinj (le_antisymm h h')) hl hl'

variable [DecidableEq κ]

/-- The keys of a list, each once and in order. -/
def sortedKeys (ord : κ → ω) (key : α → κ) (l : List α) : List κ :=
  (l.map key).dedup.sortByKey ord

/-- What is filed under the keys of a list, key by key. -/
def sortedGroups (ord : κ → ω) (key : α → κ) (l : List α) : List (κ × List α) :=
  (sortedKeys ord key l).map fun k => (k, l.filter fun a => key a == k)

variable {ord : κ → ω} {key : α → κ} {l : List α}

theorem mem_sortedKeys {k : κ} : k ∈ sortedKeys ord key l ↔ ∃ a ∈ l, key a = k := by
  rw [sortedKeys, mem_sortByKey, mem_dedup, mem_map]

theorem sortedKeys_sorted : SortedBy ord (sortedKeys ord key l) := sortedBy_sortByKey _ _

theorem sortedKeys_nodup : (sortedKeys ord key l).Nodup := nodup_sortByKey.mpr (nodup_dedup _)

/-- What is filed under distinct keys, if all keys are among them, is the list. -/
theorem flatMap_filter_perm {ks : List κ} (hn : ks.Nodup) (hcover : ∀ a ∈ l, key a ∈ ks) :
    (ks.flatMap fun k => l.filter fun a => key a == k).Perm l := by
  induction ks generalizing l with
  | nil =>
    rw [eq_nil_iff_forall_not_mem.mpr fun a ha => not_mem_nil (hcover a ha)]
    exact Perm.refl _
  | cons k ks ih =>
    obtain ⟨hk, hn⟩ := nodup_cons.mp hn
    -- the other keys file what is left when the first one has taken its part
    have hrest : (ks.flatMap fun k' => l.filter fun a => key a == k') =
        ks.flatMap fun k' => (l.filter fun a => !(key a == k)).filter fun a => key a == k' := by
      refine flatMap_congr fun k' hk' => ?_
      rw [filter_filter]
      refine filter_congr fun a _ => ?_
      by_cases ha : key a = k'
      · have hne : k' ≠ k := fun heq => hk (heq ▸ hk')
        simp [ha, hne]
      · simp [ha]
    rw [flatMap_cons, hrest]
    refine (Perm.append_left _ (ih hn fun a ha => ?_)).trans (filter_append_perm _ l)
    obtain ⟨ha, hne⟩ := mem_filter.mp ha
    exact (mem_cons.mp (hcover a ha)).resolve_left (by simpa using hne)

/-- **The groups of a part of a list** are the groups of the list, cut to the part, less those that
come out empty. -/
theorem sortedGroups_filterMap (hinj : Function.Injective ord) {f : α → Option β} {key' : β → κ}
    (hkey : ∀ {a b}, f a = some b → key' b = key a) :
    sortedGroups ord key' (l.filterMap f) =
      ((sortedGroups ord key l).map fun group => (group.1, group.2.filterMap f)).filter
        fun group => !group.2.isEmpty := by
  have hpart (k : κ) : (l.filter fun a => key a == k).filterMap f =
      (l.filterMap f).filter fun b => key' b == k := by
    rw [filterMap_filter, filter_filterMap]
    refine filterMap_congr fun a _ => ?_
    cases hf : f a with
    | none => simp
    | some b =>
      rw [Option.filter_some, hkey hf]
  have hkeys : sortedKeys ord key' (l.filterMap f) =
      (sortedKeys ord key l).filter fun k => !((l.filterMap f).filter fun b => key' b == k).isEmpty := by
    refine sortedKeys_sorted.eq_of_mem_iff hinj (sortedKeys_sorted.sublist filter_sublist)
      sortedKeys_nodup (sortedKeys_nodup.filter _) fun k => ?_
    rw [mem_filter, mem_sortedKeys, mem_sortedKeys]
    have hsome : (!((l.filterMap f).filter fun b => key' b == k).isEmpty) = true ↔
        ∃ b ∈ l.filterMap f, key' b = k := by
      rw [Bool.not_eq_true', isEmpty_eq_false_iff_exists_mem]
      exact exists_congr fun b => by rw [mem_filter, beq_iff_eq]
    rw [hsome]
    refine ⟨fun h => ⟨?_, h⟩, fun h => h.2⟩
    obtain ⟨b, hb, rfl⟩ := h
    obtain ⟨a, ha, hf⟩ := mem_filterMap.mp hb
    exact ⟨a, ha, (hkey hf).symm⟩
  rw [sortedGroups, sortedGroups, hkeys, map_map, filter_map]
  have hfun : (fun k => (k, (l.filter fun a => key a == k).filterMap f)) =
      fun k => (k, (l.filterMap f).filter fun b => key' b == k) := by
    funext k
    rw [hpart]
  show _ = (filter _ _).map fun k => (k, (l.filter fun a => key a == k).filterMap f)
  rw [hfun]
  congr 2
  funext k
  show _ = !((l.filter fun a => key a == k).filterMap f).isEmpty
  rw [hpart]

@[inherit_doc sortedGroups_filterMap]
theorem sortedGroups_filter (hinj : Function.Injective ord) (p : α → Bool) :
    sortedGroups ord key (l.filter p) =
      ((sortedGroups ord key l).map fun group => (group.1, group.2.filter p)).filter
        fun group => !group.2.isEmpty := by
  have hkey : ∀ {a b : α}, Option.guard p a = some b → key b = key a :=
    fun h => congrArg key (Option.guard_eq_some_iff.mp h).1.symm
  have hparts := sortedGroups_filterMap (l := l) (f := Option.guard p) hinj hkey
  rwa [filterMap_eq_filter] at hparts

theorem sortedGroups_map (ord : κ → ω) (key : β → κ) (f : α → β) (l : List α) :
    sortedGroups ord key (l.map f) =
      (sortedGroups ord (key ∘ f) l).map fun group => (group.1, group.2.map f) := by
  rw [sortedGroups, sortedGroups, sortedKeys, sortedKeys, map_map, map_map]
  refine map_congr_left fun k _ => ?_
  show (k, _) = (k, _)
  rw [filter_map]
  rfl

/-- Keys through a function are as many as the keys when it tells the keys apart, and only then. -/
theorem length_sortedKeys_comp_iff (ord : κ → ω) {f : κ → κ} :
    (sortedKeys ord (f ∘ key) l).length = (sortedKeys ord key l).length ↔
      ∀ a ∈ l, ∀ b ∈ l, f (key a) = f (key b) → key a = key b := by
  have hlength (key : α → κ) :
      (sortedKeys ord key l).length = (l.map key).toFinset.card := by
    rw [sortedKeys, length_sortByKey, card_toFinset]
  have himage : (l.map (f ∘ key)).toFinset = (l.map key).toFinset.image f := by
    ext k
    simp
  rw [hlength, hlength, himage, Finset.card_image_iff]
  simp [Set.InjOn]

/-- **Groups under coarser keys**, through a function that reads of a key only what the coarser one
keeps, are a permutation of the groups exactly when no two keys fall together. -/
theorem map_sortedGroups_perm_iff {γ : Type*} {f : κ → κ} {F : κ × List α → γ}
    (hF : ∀ k g, F (f k, g) = F (k, g)) :
    ((sortedGroups ord key l).map F).Perm ((sortedGroups ord (f ∘ key) l).map F) ↔
      ∀ a ∈ l, ∀ b ∈ l, f (key a) = f (key b) → key a = key b := by
  constructor
  · intro hperm
    rw [← length_sortedKeys_comp_iff ord]
    simpa [sortedGroups] using hperm.length_eq.symm
  · intro hinj
    have hgroup : ∀ a ∈ l, (l.filter fun b => (f ∘ key) b == f (key a)) =
        l.filter fun b => key b == key a := fun a ha => filter_congr fun b hb => by
      rw [Bool.eq_iff_iff, beq_iff_eq, beq_iff_eq]
      exact ⟨hinj b hb a ha, congrArg f⟩
    have hkeys : (sortedKeys ord (f ∘ key) l).Perm ((sortedKeys ord key l).map f) := by
      have hnodup : ((sortedKeys ord key l).map f).Nodup :=
        sortedKeys_nodup.map_on fun k hk k' hk' heq => by
          obtain ⟨a, ha, rfl⟩ := mem_sortedKeys.mp hk
          obtain ⟨b, hb, rfl⟩ := mem_sortedKeys.mp hk'
          exact hinj a ha b hb heq
      refine (perm_ext_iff_of_nodup sortedKeys_nodup hnodup).mpr fun k => ?_
      rw [mem_sortedKeys, mem_map]
      constructor
      · rintro ⟨a, ha, rfl⟩
        exact ⟨key a, mem_sortedKeys.mpr ⟨a, ha, rfl⟩, rfl⟩
      · rintro ⟨k, hk, rfl⟩
        obtain ⟨a, ha, rfl⟩ := mem_sortedKeys.mp hk
        exact ⟨a, ha, rfl⟩
    rw [sortedGroups, sortedGroups, map_map, map_map]
    refine Perm.trans (Perm.of_eq ?_) (hkeys.map _).symm
    rw [map_map]
    refine map_congr_left fun k hk => ?_
    obtain ⟨a, ha, rfl⟩ := mem_sortedKeys.mp hk
    show F (key a, _) = F (f (key a), _)
    rw [hgroup a ha, hF]

end List
