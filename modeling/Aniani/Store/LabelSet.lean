import Aniani.Store.Contents
import Aniani.Store.Identity
import Aniani.Store.LogStore
import Mathlib.Data.String.Basic

/-!
# Streams by their label sets

A store finds the stream of a label list by the keys of its strings, sorted by the key of the name.
Which keys the interner has given out does not matter for that: two label lists have one stream
exactly when they agree once both are sorted by name. So the contents of a store are a map from
label sets in strings, which two stores with different interners can be compared by.

## Main definitions

* `labelSet` — a label list, sorted by name
* `LabelStore.vectorOf` — what is stored under a label list
* `LabelStore.LabelsSorted` — the labels of every stream are sorted

## Main results

* `KeysOf.sortByKey_eq_iff` — one stream, one label set
* `LabelStore.Indexed.vectorOf_ingest`
* `LabelStore.Indexed.vectorOf_eq_some_iff` — the streams, by their label sets
* `LogStore.labelsSorted_exec`
-/

namespace Aniani

open Interner

/-- The labels sorted by name, ties in the order they came. -/
def labelSet (labels : List (String × String)) : List (String × String) :=
  labels.sortByKey Prod.fst

section Keys

variable {Rodeo Spur : Type} [LinearOrder Spur] [Interner Rodeo Spur]

/-- The labels of one name are the pairs of its key. -/
theorem KeysOf.filter {r : Rodeo} {labels : List (String × String)} {pairs : LabelPairs Spur}
    (h : KeysOf r labels pairs) {name : String} {key : Spur} (hkey : get r name = some key) :
    KeysOf r (labels.filter fun label => decide (label.1 = name))
      (pairs.filter fun pair => decide (pair.1 = key)) := by
  induction h with
  | nil => exact .nil
  | @cons label pair labels pairs hl _ ih =>
    have hname : label.1 = name ↔ pair.1 = key := by
      constructor
      · intro heq
        rw [← heq] at hkey
        exact Option.some.inj (hl.1.symm.trans hkey)
      · intro heq
        rw [← heq] at hkey
        exact eq_of_get_eq hl.1 hkey
    rw [List.filter_cons, List.filter_cons, decide_eq_decide.mpr hname]
    cases decide (pair.1 = key) with
    | true => exact .cons hl ih
    | false => exact ih

omit [LinearOrder Spur] in
theorem KeysOf.eq_iff {r : Rodeo} {labels labels' : List (String × String)}
    {pairs pairs' : LabelPairs Spur} (h : KeysOf r labels pairs) (h' : KeysOf r labels' pairs') :
    pairs = pairs' ↔ labels = labels' := by
  constructor
  · intro heq
    rw [← h.resolve_eq, heq, h'.resolve_eq]
  · intro heq
    rw [← h.internPairs_eq, heq, h'.internPairs_eq]

omit [LinearOrder Spur] in
/-- A name without a key is not among the labels. -/
theorem KeysOf.filter_eq_nil {r : Rodeo} {labels : List (String × String)}
    {pairs : LabelPairs Spur} (h : KeysOf r labels pairs) {name : String}
    (hname : get r name = none) : (labels.filter fun label => decide (label.1 = name)) = [] := by
  refine List.filter_eq_nil_iff.mpr fun label hl heq => ?_
  obtain ⟨i, hi, rfl⟩ := List.mem_iff_getElem.mp hl
  have hkey := (h.get hi (h.length_eq ▸ hi)).1
  rw [List.get_eq_getElem, of_decide_eq_true heq, hname] at hkey
  exact absurd hkey (by simp)

/-- A key the interner did not give out is not among the pairs. -/
theorem KeysOf.filter_eq_nil_of_not_valid {r : Rodeo} {labels : List (String × String)}
    {pairs : LabelPairs Spur} (h : KeysOf r labels pairs) {key : Spur} (hkey : ¬ Valid r key) :
    (pairs.filter fun pair => decide (pair.1 = key)) = [] := by
  refine List.filter_eq_nil_iff.mpr fun pair hp heq => hkey ?_
  obtain ⟨i, hi, rfl⟩ := List.mem_iff_getElem.mp hp
  have hget := (h.get (h.length_eq ▸ hi) hi).1
  rw [List.get_eq_getElem, List.get_eq_getElem, of_decide_eq_true heq] at hget
  exact ⟨_, hget⟩

/-- **The keys of two label lists sort alike exactly when the lists do**, whatever the keys are. -/
theorem KeysOf.sortByKey_eq_iff {r : Rodeo} {labels labels' : List (String × String)}
    {pairs pairs' : LabelPairs Spur} (h : KeysOf r labels pairs) (h' : KeysOf r labels' pairs') :
    pairs.sortByKey Prod.fst = pairs'.sortByKey Prod.fst ↔ labelSet labels = labelSet labels' := by
  rw [labelSet, labelSet, List.sortByKey_eq_iff, List.sortByKey_eq_iff]
  constructor
  · intro hpairs name
    cases hname : get r name with
    | none => rw [h.filter_eq_nil hname, h'.filter_eq_nil hname]
    | some key => exact ((h.filter hname).eq_iff (h'.filter hname)).mp (hpairs key)
  · intro hlabels key
    by_cases hkey : Valid r key
    · obtain ⟨name, hname⟩ := hkey
      exact ((h.filter hname).eq_iff (h'.filter hname)).mpr (hlabels name)
    · rw [h.filter_eq_nil_of_not_valid hkey, h'.filter_eq_nil_of_not_valid hkey]

end Keys

theorem perm_of_labelSet_eq {labels labels' : List (String × String)}
    (h : labelSet labels = labelSet labels') : labels.Perm labels' :=
  (List.sortByKey_perm Prod.fst labels).symm.trans
    ((List.Perm.of_eq h).trans (List.sortByKey_perm Prod.fst labels'))

namespace LabelStore

variable {Rodeo Spur α : Type} [LinearOrder Spur] [Interner Rodeo Spur] [Timestamped α]

omit [Timestamped α] in
/-- What is stored under a label list. -/
def vectorOf (s : LabelStore Rodeo Spur α) (labels : List (String × String)) : Option (List α) :=
  s.contents (internLabelPairs s.interner labels).1

/-- A larger interner finds the same stream. -/
theorem Indexed.contents_internLabelPairs {s : LabelStore Rodeo Spur α} (h : s.Indexed) {r : Rodeo}
    (hext : Extends s.interner r) (labels : List (String × String)) :
    s.contents (internLabelPairs r labels).1 = s.vectorOf labels := by
  refine Option.ext fun entries => ?_
  rw [vectorOf, h.contents_eq_some_iff, h.contents_eq_some_iff]
  constructor
  · rintro ⟨id, hst⟩
    have hkeys : KeysOf s.interner labels (internPairs r labels).1 :=
      (keysOf_internPairs r labels).of_valid (hext.trans (extends_internPairs r labels))
        fun pair hp => h.interned hst pair (List.mem_sortByKey.mpr hp)
    exact ⟨id, by rwa [internLabelPairs, hkeys.internPairs_eq]⟩
  · rintro ⟨id, hst⟩
    have hkeys : KeysOf s.interner labels (internPairs s.interner labels).1 :=
      keysOf_of_valid fun pair hp => h.interned hst pair (List.mem_sortByKey.mpr hp)
    exact ⟨id, by rwa [internLabelPairs, (hkeys.mono hext).internPairs_eq]⟩

/-- **Ingest** appends to the vector of the label set, and leaves the others alone. -/
theorem Indexed.vectorOf_ingest {s : LabelStore Rodeo Spur α} (h : s.Indexed)
    (labels : List (String × String)) (batch : List α) (labels' : List (String × String)) :
    (s.ingest labels batch).vectorOf labels' =
      if labelSet labels' = labelSet labels then
        some (appendBatch ((s.vectorOf labels').getD []) batch)
      else s.vectorOf labels' := by
  have hext := extends_internLabelPairs s.interner labels
  have hsame : (internLabelPairs (internLabelPairs s.interner labels).2 labels').1 =
      (internLabelPairs s.interner labels).1 ↔ labelSet labels' = labelSet labels :=
    (keysOf_internPairs _ labels').sortByKey_eq_iff
      ((keysOf_internPairs s.interner labels).mono (extends_internPairs _ labels'))
  rw [vectorOf, ingest_interner, h.contents_ingest, h.contents_internLabelPairs hext]
  exact if_congr hsame rfl rfl

/-! ### The streams themselves -/

omit [Interner Rodeo Spur] [Timestamped α] in
/-- The labels of every stream are sorted by the key of the name. -/
def LabelsSorted (s : LabelStore Rodeo Spur α) : Prop :=
  ∀ id stream, s.streams.lookup id = some stream → stream.labels.SortedBy Prod.fst

/-- **The streams, by their label sets.** -/
theorem Indexed.vectorOf_eq_some_iff {s : LabelStore Rodeo Spur α} (h : s.Indexed)
    (hsorted : s.LabelsSorted) {labels : List (String × String)} {entries : List α} :
    s.vectorOf labels = some entries ↔ ∃ id stream, s.streams.lookup id = some stream ∧
      labelSet (s.resolveLabels stream.labels) = labelSet labels ∧ stream.entries = entries := by
  rw [vectorOf, h.contents_eq_some_iff]
  constructor
  · rintro ⟨id, hst⟩
    refine ⟨id, _, hst, ?_, rfl⟩
    have hkeys : KeysOf s.interner labels (internPairs s.interner labels).1 :=
      keysOf_of_valid fun pair hp => h.interned hst pair (List.mem_sortByKey.mpr hp)
    refine ((keysOf_resolveLabels (h.interned hst)).sortByKey_eq_iff hkeys).mp ?_
    exact List.sortByKey_of_sortedBy (List.sortedBy_sortByKey _ _)
  · rintro ⟨id, stream, hst, hlabels, rfl⟩
    have hresolved := keysOf_resolveLabels (h.interned hst)
    obtain ⟨pairs, hkeys, -⟩ := hresolved.perm (perm_of_labelSet_eq hlabels).symm
    have hpairs := (hresolved.sortByKey_eq_iff hkeys).mpr hlabels
    rw [List.sortByKey_of_sortedBy (hsorted id stream hst)] at hpairs
    refine ⟨id, ?_⟩
    rw [internLabelPairs, hkeys.internPairs_eq, ← hpairs]
    exact hst

theorem streamInvariant_labelsSorted :
    StreamInvariant fun stream : Stream Spur α => stream.labels.SortedBy Prod.fst where
  created _ hlabels := hlabels
  extended _ _ h := h
  shrunk _ _ hlabels _ h := hlabels ▸ h

theorem LabelsSorted.ingest {s : LabelStore Rodeo Spur α} (h : s.LabelsSorted)
    (labels : List (String × String)) (batch : List α) :
    (s.ingest labels batch).LabelsSorted :=
  streamInvariant_labelsSorted.ingest h labels batch

end LabelStore

namespace LogStore

variable {Rodeo Spur F64 : Type} [LinearOrder Spur] [Interner Rodeo Spur]

/-- **Every run keeps the labels sorted.** -/
theorem labelsSorted_exec (ops : List (LogOp Spur F64)) :
    (Run.exec apply (new : LogStore Rodeo Spur F64) ops).LabelsSorted :=
  everyStream_exec LabelStore.streamInvariant_labelsSorted ops

end LogStore

end Aniani
