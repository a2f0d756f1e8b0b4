import Aniani.Store.Consistency

/-!
# Where a label list lands

An ingest interns the labels, sorts the pairs by the key of the name, and looks the result up in the
identity map. The sort leaves pairs with one name in the order they came, so the order a label list
is given in does not matter when its names are distinct.

## Main definitions

* `KeysOf` — a label list, read as the pairs of keys it was interned as
* `LabelStore.Lands` — an ingest of the labels goes to a stream
* `LabelStore.Labels` — what a sequence of ingests leaves

## Main results

* `LabelStore.Indexed.lands_iff`
* `LabelStore.Indexed.lands_perm`, `LabelStore.Indexed.lands_iff_perm`
-/

namespace Aniani

open Interner

/-! ### Interned label lists -/

section Keys

variable {Rodeo Spur : Type} [Interner Rodeo Spur]

/-- The strings of a label list are interned, by the keys of `pairs`. -/
def KeysOf (r : Rodeo) : List (String × String) → LabelPairs Spur → Prop :=
  List.Forall₂ fun label pair => get r label.1 = some pair.1 ∧ get r label.2 = some pair.2

theorem KeysOf.mono {r r' : Rodeo} {labels : List (String × String)} {pairs : LabelPairs Spur}
    (h : KeysOf r labels pairs) (hext : Extends r r') : KeysOf r' labels pairs :=
  h.imp fun _ _ hl => ⟨hext _ _ hl.1, hext _ _ hl.2⟩

theorem keysOf_internPairs (r : Rodeo) (labels : List (String × String)) :
    KeysOf (internPairs r labels).2 labels (internPairs r labels).1 := by
  induction labels generalizing r with
  | nil => exact .nil
  | cons l labels ih =>
    have hext := extends_internPairs (getOrIntern (getOrIntern r l.1).2 l.2).2 labels
    refine .cons ⟨hext _ _ ?_, hext _ _ (get_getOrIntern_self _ _)⟩ (ih _)
    exact extends_getOrIntern _ _ _ _ (get_getOrIntern_self r l.1)

/-- Interning what is interned gives the keys it has. -/
theorem KeysOf.internPairs_eq {r : Rodeo} {labels : List (String × String)}
    {pairs : LabelPairs Spur} (h : KeysOf r labels pairs) : (internPairs r labels).1 = pairs := by
  refine List.right_unique_forall₂' ?_ (keysOf_internPairs r labels)
    (h.mono (extends_internPairs r labels))
  intro label p q hp hq
  exact Prod.ext (Option.some.inj (hp.1.symm.trans hq.1)) (Option.some.inj (hp.2.symm.trans hq.2))

/-- Strings whose keys were given out earlier were interned earlier. -/
theorem KeysOf.of_valid {r r' : Rodeo} {labels : List (String × String)} {pairs : LabelPairs Spur}
    (h : KeysOf r' labels pairs) (hext : Extends r r')
    (hvalid : ∀ pair ∈ pairs, Valid r pair.1 ∧ Valid r pair.2) : KeysOf r labels pairs := by
  have hback : ∀ {s k}, get r' s = some k → Valid r k → get r s = some k := by
    rintro s k hs ⟨t, ht⟩
    rwa [eq_of_get_eq hs (hext _ _ ht)]
  refine List.forall₂_iff_get.mpr ⟨h.length_eq, fun i hi hi' => ?_⟩
  obtain ⟨hk, hv⟩ := h.get hi hi'
  have hpair := hvalid _ (List.get_mem pairs ⟨i, hi'⟩)
  exact ⟨hback hk hpair.1, hback hv hpair.2⟩

/-- If interning gives out no new key, the strings were interned. -/
theorem keysOf_of_valid {r : Rodeo} {labels : List (String × String)}
    (h : ∀ pair ∈ (internPairs r labels).1, Valid r pair.1 ∧ Valid r pair.2) :
    KeysOf r labels (internPairs r labels).1 :=
  (keysOf_internPairs r labels).of_valid (extends_internPairs r labels) h

theorem KeysOf.resolve_eq {r : Rodeo} {labels : List (String × String)} {pairs : LabelPairs Spur}
    (h : KeysOf r labels pairs) :
    pairs.map (fun pair => (resolve r pair.1, resolve r pair.2)) = labels := by
  induction h with
  | nil => rfl
  | cons hl _ ih => rw [List.map_cons, ih, resolve_of_get hl.1, resolve_of_get hl.2]

/-- Distinct names have distinct keys. -/
theorem KeysOf.nodup {r : Rodeo} {labels : List (String × String)} {pairs : LabelPairs Spur}
    (h : KeysOf r labels pairs) (hn : (labels.map Prod.fst).Nodup) :
    (pairs.map Prod.fst).Nodup := by
  refine List.Nodup.of_map (resolve r) ?_
  rw [← h.resolve_eq, List.map_map] at hn
  rwa [List.map_map]

/-- The same labels in another order have the same pairs in another order. -/
theorem KeysOf.perm {r : Rodeo} {labels labels' : List (String × String)}
    {pairs : LabelPairs Spur} (h : KeysOf r labels pairs) (hp : labels'.Perm labels) :
    ∃ pairs', KeysOf r labels' pairs' ∧ pairs'.Perm pairs :=
  List.perm_comp_forall₂ hp h

end Keys

/-- Sorting by keys that are distinct forgets the order. -/
theorem sortByKey_eq_of_perm {Spur : Type} [LinearOrder Spur] {pairs pairs' : LabelPairs Spur}
    (hp : pairs'.Perm pairs) (hn : (pairs.map Prod.fst).Nodup) :
    pairs'.sortByKey Prod.fst = pairs.sortByKey Prod.fst := by
  have hperm := (List.sortByKey_perm Prod.fst pairs').trans
    (hp.trans (List.sortByKey_perm Prod.fst pairs).symm)
  refine hperm.eq_of_pairwise (fun a b ha hb hab hba => ?_) (List.sortedBy_sortByKey _ _)
    (List.sortedBy_sortByKey _ _)
  refine List.inj_on_of_nodup_map hn (hp.mem_iff.mp (List.mem_sortByKey.mp ha))
    (List.mem_sortByKey.mp hb) (le_antisymm hab hba)

namespace LabelStore

variable {Rodeo Spur α : Type} [LinearOrder Spur] [Interner Rodeo Spur] [Timestamped α]

omit [Timestamped α] in
/-- An ingest of the labels would go to the stream `id`. -/
def Lands (s : LabelStore Rodeo Spur α) (labels : List (String × String)) (id : ℕ) : Prop :=
  s.streamIds.lookup (internLabelPairs s.interner labels).1 = some id

/-- **A label list lands in the stream with its keys**, sorted by the key of the name. -/
theorem Indexed.lands_iff {s : LabelStore Rodeo Spur α} (h : s.Indexed)
    {labels : List (String × String)} {id : ℕ} :
    s.Lands labels id ↔ ∃ pairs, KeysOf s.interner labels pairs ∧
      ∃ stream, s.streams.lookup id = some stream ∧ stream.labels = pairs.sortByKey Prod.fst := by
  rw [Lands, h.streamIds]
  constructor
  · rintro ⟨stream, hst, hlabels⟩
    refine ⟨_, keysOf_of_valid fun pair hp => h.interned hst pair ?_, stream, hst, hlabels⟩
    rw [hlabels]
    exact List.mem_sortByKey.mpr hp
  · rintro ⟨pairs, hkeys, stream, hst, hlabels⟩
    refine ⟨stream, hst, ?_⟩
    rw [internLabelPairs, hkeys.internPairs_eq]
    exact hlabels

/-- The stream shows the labels, in some order. -/
theorem Indexed.getStreamLabels_of_lands {s : LabelStore Rodeo Spur α} (h : s.Indexed)
    {labels : List (String × String)} {id : ℕ} (hl : s.Lands labels id) :
    ∃ stored, s.getStreamLabels id = some stored ∧ stored.Perm labels := by
  obtain ⟨pairs, hkeys, stream, hst, hlabels⟩ := h.lands_iff.mp hl
  refine ⟨_, by rw [getStreamLabels, hst, Option.map_some], ?_⟩
  rw [resolveLabels, hlabels]
  exact ((List.sortByKey_perm _ _).map _).trans (List.Perm.of_eq hkeys.resolve_eq)

/-- **The order does not matter** when the names are distinct. -/
theorem Indexed.lands_perm {s : LabelStore Rodeo Spur α} (h : s.Indexed)
    {labels labels' : List (String × String)} {id : ℕ} (hl : s.Lands labels id)
    (hp : labels'.Perm labels) (hn : (labels.map Prod.fst).Nodup) : s.Lands labels' id := by
  obtain ⟨pairs, hkeys, stream, hst, hlabels⟩ := h.lands_iff.mp hl
  obtain ⟨pairs', hkeys', hperm⟩ := hkeys.perm hp
  refine h.lands_iff.mpr ⟨pairs', hkeys', stream, hst, hlabels.trans ?_⟩
  exact (sortByKey_eq_of_perm hperm (hkeys.nodup hn)).symm

/-- **Two label lists land in one stream** exactly when one is the other in another order, if the
names of the first are distinct. -/
theorem Indexed.lands_iff_perm {s : LabelStore Rodeo Spur α} (h : s.Indexed)
    {labels labels' : List (String × String)} {id : ℕ} (hl : s.Lands labels id)
    (hn : (labels.map Prod.fst).Nodup) : s.Lands labels' id ↔ labels'.Perm labels := by
  refine ⟨fun hl' => ?_, fun hp => h.lands_perm hl hp hn⟩
  obtain ⟨stored, hstored, hperm⟩ := h.getStreamLabels_of_lands hl
  obtain ⟨stored', hstored', hperm'⟩ := h.getStreamLabels_of_lands hl'
  obtain rfl := Option.some.inj (hstored.symm.trans hstored')
  exact hperm'.symm.trans hperm

omit [Timestamped α] [LinearOrder Spur] in
theorem keysOf_resolveLabels {s : LabelStore Rodeo Spur α} {pairs : LabelPairs Spur}
    (h : ∀ pair ∈ pairs, Valid s.interner pair.1 ∧ Valid s.interner pair.2) :
    KeysOf s.interner (s.resolveLabels pairs) pairs := by
  refine List.forall₂_map_left_iff.mpr (List.forall₂_same.mpr fun pair hp => ?_)
  exact ⟨(h pair hp).1.get_resolve, (h pair hp).2.get_resolve⟩

/-- **No two streams show one label set.** -/
theorem Indexed.eq_of_getStreamLabels {s : LabelStore Rodeo Spur α} (h : s.Indexed) {id id' : ℕ}
    {labels : List (String × String)} (hl : s.getStreamLabels id = some labels)
    (hl' : s.getStreamLabels id' = some labels) : id = id' := by
  obtain ⟨stream, hst, rfl⟩ := Option.map_eq_some_iff.mp hl
  obtain ⟨stream', hst', heq⟩ := Option.map_eq_some_iff.mp hl'
  have hkeys := (keysOf_resolveLabels (h.interned hst)).internPairs_eq
  have hkeys' := (keysOf_resolveLabels (h.interned hst')).internPairs_eq
  rw [heq, hkeys] at hkeys'
  have hid := (h.streamIds stream.labels id).mpr ⟨stream, hst, rfl⟩
  have hid' := (h.streamIds stream.labels id').mpr ⟨stream', hst', hkeys'.symm⟩
  exact Option.some.inj (hid.symm.trans hid')

/-- A label list keeps landing where it does while the store grows. -/
theorem Lands.mono {s s' : LabelStore Rodeo Spur α} (h : s.Indexed) (h' : s'.Indexed)
    (hg : s.Grows s') {labels : List (String × String)} {id : ℕ} (hl : s.Lands labels id) :
    s'.Lands labels id := by
  obtain ⟨pairs, hkeys, stream, hst, hlabels⟩ := h.lands_iff.mp hl
  obtain ⟨stream', hst', hlabels'⟩ := hg.streams hst
  exact h'.lands_iff.mpr ⟨pairs, hkeys.mono hg.interner, stream', hst', hlabels'.trans hlabels⟩

/-! ### A sequence of ingests -/

omit [Timestamped α] in
/-- `s'` has gained the label lists of `L`, and no stream for any other. -/
structure Labels [Timestamped α] (s s' : LabelStore Rodeo Spur α)
    (L : List (List (String × String))) : Prop where
  indexed : s'.Indexed
  grows : s.Grows s'
  lands : ∀ labels ∈ L, ∃ id, s'.Lands labels id
  stored : ∀ id ∈ s'.streams, id ∈ s.streams ∨ ∃ labels ∈ L, s'.Lands labels id

theorem Labels.refl {s : LabelStore Rodeo Spur α} (h : s.Indexed) : s.Labels s [] :=
  ⟨h, Grows.refl s, by simp, fun _ => .inl⟩

theorem Labels.trans {s₁ s₂ s₃ : LabelStore Rodeo Spur α} {L L' : List (List (String × String))}
    (h₁ : s₁.Labels s₂ L) (h₂ : s₂.Labels s₃ L') : s₁.Labels s₃ (L ++ L') where
  indexed := h₂.indexed
  grows := h₁.grows.trans h₂.grows
  lands labels hl := by
    rcases List.mem_append.mp hl with hl | hl
    · obtain ⟨id, hid⟩ := h₁.lands labels hl
      exact ⟨id, hid.mono h₁.indexed h₂.indexed h₂.grows⟩
    · exact h₂.lands labels hl
  stored id hid := by
    rcases h₂.stored id hid with hid | ⟨labels, hl, hid⟩
    · refine (h₁.stored id hid).imp_right ?_
      rintro ⟨labels, hl, hid⟩
      exact ⟨labels, List.mem_append_left _ hl, hid.mono h₁.indexed h₂.indexed h₂.grows⟩
    · exact .inr ⟨labels, List.mem_append_right _ hl, hid⟩

/-- Only which label lists there are matters. -/
theorem Labels.congr {s s' : LabelStore Rodeo Spur α} {L L' : List (List (String × String))}
    (h : s.Labels s' L) (hL : ∀ l, l ∈ L ↔ l ∈ L') : s.Labels s' L' where
  indexed := h.indexed
  grows := h.grows
  lands labels hl := h.lands labels ((hL labels).mpr hl)
  stored id hid := (h.stored id hid).imp_right fun ⟨labels, hl, hid⟩ =>
    ⟨labels, (hL labels).mp hl, hid⟩

/-- One ingest gains one label list. -/
theorem Invariant.labels_ingest {s : LabelStore Rodeo Spur α} (h : s.Invariant)
    {labels : List (String × String)} (hroom : s.nextStreamId + s.created labels ≤ u64Max)
    (batch : List α) : s.Labels (s.ingest labels batch) [labels] := by
  have h' := (h.ingest hroom batch).toIndexed
  have hlands : ∃ id, (s.ingest labels batch).Lands labels id ∧
      ∀ i ∈ (s.ingest labels batch).streams, i ∈ s.streams ∨ i = id := by
    obtain ⟨id, stream, heq, hlabels, -⟩ := h.toIndexed.ingest_streams labels batch
    refine ⟨id, h'.lands_iff.mpr ⟨(internPairs s.interner labels).1, ?_, stream, ?_, hlabels⟩,
      fun i hi => ?_⟩
    · rw [ingest_interner]
      exact keysOf_internPairs s.interner labels
    · rw [heq, Finmap.lookup_insert]
    · rw [heq, Finmap.mem_insert] at hi
      exact hi.symm
  obtain ⟨id, hid, hstored⟩ := hlands
  refine ⟨h', h.grows_ingest labels batch, fun l hl => ?_, fun i hi => ?_⟩
  · obtain rfl := List.mem_singleton.mp hl
    exact ⟨id, hid⟩
  · refine (hstored i hi).imp_right ?_
    rintro rfl
    exact ⟨labels, List.mem_singleton_self _, hid⟩

end LabelStore

end Aniani
