import Aniani.Store.Eviction
import Aniani.Store.Held

/-!
# Eviction by age

`evict_before` takes from every stream, series or trace what is older than a cutoff, and removes the
ones that are left empty. The background task calls it again and again with later and later cutoffs,
so what matters is that the steps compose: two evictions in a row are one eviction with the later
cutoff, down to the indexes and the counters.

For the streams and the counters this is arithmetic. The indexes of a label store are edited once
for every stream that goes, in the order of a walk, and the edits commute, whether the indexes fit
the streams or not. The trace store rebuilds or reconciles its indexes, and there the invariant
decides what they are.

## Main definitions

* `LabelStore.EvictsBefore`, `TraceStore.EvictsBefore` — exactly the old elements go
* `LabelStore.Indexes`, `unlist` — what the removal of a stream does to the indexes

## Main results

* `LabelStore.evictBefore_evictBefore`, `TraceStore.Invariant.evictBefore_evictBefore` — two
  evictions are one
* `evictBefore_exec` — the three stores, after any run
-/

namespace Aniani

namespace LabelStore

variable {Rodeo Spur α : Type} [LinearOrder Spur]

/-! ### Edits of the indexes -/

/-- The identity map and the two label indexes. -/
abbrev Indexes (Spur : Type) :=
  FxHashMap (LabelPairs Spur) ℕ × FxHashMap (Spur × Spur) PostingList ×
    FxHashMap Spur (FxHashSet Spur)

def indexes (s : LabelStore Rodeo Spur α) : Indexes Spur := (s.streamIds, s.labelIndex, s.labelValues)

/-- Take a stream out of the indexes, given its id and its labels. -/
def unlist (ix : Indexes Spur) (entry : ℕ × LabelPairs Spur) : Indexes Spur :=
  (ix.1.erase entry.2, removeFromLabelIndexes ix.2.1 ix.2.2 entry.2 entry.1)

/-- One edit of the label indexes, written out. -/
theorem removeFromLabelIndex_eq (id : ℕ)
    (ix : FxHashMap (Spur × Spur) PostingList × FxHashMap Spur (FxHashSet Spur))
    (pair : Spur × Spur) :
    removeFromLabelIndex id ix pair =
      (InvertedIndex.remove ix.1 pair id,
        if (ix.1.lookup pair).any fun pl => (pl.remove id).isEmpty then
          InvertedIndex.remove ix.2 pair.1 pair.2
        else ix.2) := by
  rw [removeFromLabelIndex]
  cases hpl : ix.1.lookup pair with
  | none =>
    have hsame : InvertedIndex.remove ix.1 pair id = ix.1 := by rw [InvertedIndex.remove, hpl]
    rw [hsame]
    rfl
  | some pl =>
    have hleft : InvertedIndex.remove ix.1 pair id =
        if (pl.remove id).isEmpty then ix.1.erase pair else ix.1.insert pair (pl.remove id) := by
      rw [InvertedIndex.remove, hpl]
      rfl
    rw [hleft]
    by_cases hemp : (pl.remove id).isEmpty = true <;> simp [hemp]

/-- **The edits commute.** -/
theorem removeFromLabelIndex_comm (id id' : ℕ)
    (ix : FxHashMap (Spur × Spur) PostingList × FxHashMap Spur (FxHashSet Spur))
    (pair pair' : Spur × Spur) :
    removeFromLabelIndex id' (removeFromLabelIndex id ix pair) pair' =
      removeFromLabelIndex id (removeFromLabelIndex id' ix pair') pair := by
  simp only [removeFromLabelIndex_eq]
  refine Prod.ext (InvertedIndex.remove_comm (fun _ _ => PostingList.ext_mem) _ _ _ _ _) ?_
  have hlook : ∀ (id : ℕ) (pair pair' : Spur × Spur),
      (InvertedIndex.remove ix.1 pair id).lookup pair' =
        if pair' = pair then (ix.1.lookup pair').bind fun pl =>
          if (pl.remove id).isEmpty then none else some (pl.remove id)
        else ix.1.lookup pair' := fun id pair pair' => InvertedIndex.lookup_remove ix.1 pair pair' id
  simp only [hlook]
  by_cases hp : pair' = pair
  · subst hp
    rw [if_pos rfl, if_pos rfl]
    cases ix.1.lookup pair' with
    | none => rfl
    | some pl =>
      have hswap : (pl.remove id).remove id' = (pl.remove id').remove id :=
        PostingList.ext_mem fun i => by simp only [PostingList.mem_remove]; exact and_right_comm
      -- the value goes once, with whichever id was the last
      have hmono : ∀ i j, (pl.remove i).isEmpty = true → ((pl.remove i).remove j).isEmpty = true :=
        fun i j h => @InvertedIndex.isEmpty_remove ℕ PostingList _ _ (pl.remove i) h j
      have h1 := hmono id id'
      have h2 := hmono id' id
      rw [hswap] at h1
      by_cases he : (pl.remove id).isEmpty = true <;> by_cases he' : (pl.remove id').isEmpty = true <;>
        simp [he, he', hswap, h1, h2]
  · rw [if_neg hp, if_neg (Ne.symm hp)]
    split
    · split
      · exact InvertedIndex.remove_comm (fun _ _ => Finset.ext) _ _ _ _ _
      · rfl
    · rfl

instance : RightCommutative (unlist : Indexes Spur → ℕ × LabelPairs Spur → Indexes Spur) where
  right_comm ix entry entry' := by
    let edit (ix : FxHashMap (Spur × Spur) PostingList × FxHashMap Spur (FxHashSet Spur))
      (p : ℕ × (Spur × Spur)) := removeFromLabelIndex p.1 ix p.2
    have hcomm : RightCommutative edit :=
      ⟨fun ix p p' => removeFromLabelIndex_comm p.1 p'.1 ix p.2 p'.2⟩
    have hfold : ∀ ix (entry : ℕ × LabelPairs Spur),
        removeFromLabelIndexes ix.1 ix.2 entry.2 entry.1 =
          (entry.2.map fun pair => (entry.1, pair)).foldl edit ix := by
      intro ix entry
      rw [List.foldl_map]
      rfl
    refine Prod.ext ?_ ?_
    · show (ix.1.erase entry.2).erase entry'.2 = (ix.1.erase entry'.2).erase entry.2
      exact Finmap.erase_erase
    · show removeFromLabelIndexes (removeFromLabelIndexes _ _ _ _).1
        (removeFromLabelIndexes _ _ _ _).2 _ _ = removeFromLabelIndexes
          (removeFromLabelIndexes _ _ _ _).1 (removeFromLabelIndexes _ _ _ _).2 _ _
      rw [hfold, hfold, hfold, hfold, ← List.foldl_append, ← List.foldl_append]
      exact List.perm_append_comm.foldl_eq _

/-- What a list of removals does to the indexes, given the labels of the streams removed. -/
theorem indexes_foldl_removeStream {ids : List ℕ} (hnodup : ids.Nodup)
    (s : LabelStore Rodeo Spur α) :
    (ids.foldl removeStream s).indexes = (ids.filterMap fun id =>
      (s.streams.lookup id).map fun stream => (id, stream.labels)).foldl unlist s.indexes := by
  induction ids generalizing s with
  | nil => rfl
  | cons id ids ih =>
    obtain ⟨hid, hnodup⟩ := List.nodup_cons.mp hnodup
    have hsame : ∀ i ∈ ids, (s.removeStream id).streams.lookup i = s.streams.lookup i := by
      intro i hi
      have hne : i ≠ id := fun h => hid (h ▸ hi)
      rw [lookup_removeStream, if_neg hne]
    have hlabels : (ids.filterMap fun i => ((s.removeStream id).streams.lookup i).map
        fun stream => (i, stream.labels)) =
          ids.filterMap fun i => (s.streams.lookup i).map fun stream => (i, stream.labels) :=
      List.filterMap_congr fun i hi => by rw [hsame i hi]
    rw [List.foldl_cons, ih hnodup, hlabels, List.filterMap_cons]
    cases hst : s.streams.lookup id with
    | none => rw [removeStream, hst]; rfl
    | some stream =>
      have hone : (s.removeStream id).indexes = unlist s.indexes (id, stream.labels) := by
        rw [removeStream, hst]
        rfl
      rw [hone]
      rfl

variable [Timestamped α]

omit [LinearOrder Spur] in
theorem indexes_foldl_drainBefore (cutoff : ℤ) (ids : List ℕ)
    (acc : LabelStore Rodeo Spur α × List ℕ) :
    (ids.foldl (drainBefore cutoff) acc).1.indexes = acc.1.indexes ∧
      ∃ emptied, emptied.Sublist ids ∧ (ids.foldl (drainBefore cutoff) acc).2 = acc.2 ++ emptied := by
  induction ids generalizing acc with
  | nil => exact ⟨rfl, [], List.Sublist.refl _, (List.append_nil _).symm⟩
  | cons id ids ih =>
    obtain ⟨hix, emptied, hsub, hsnd⟩ := ih (drainBefore cutoff acc id)
    rw [List.foldl_cons, hix, hsnd, drainBefore]
    split
    · exact ⟨rfl, emptied, hsub.cons id, rfl⟩
    next stream hst =>
      refine ⟨rfl, ?_⟩
      dsimp only
      split
      · exact ⟨id :: emptied, hsub.cons_cons id, by rw [List.append_assoc]; rfl⟩
      · exact ⟨emptied, hsub.cons id, rfl⟩

/-- **What an eviction by age does to the indexes**: the streams without anything to keep are taken
out of them. -/
theorem indexes_evictBefore (it : IterOrder ℕ) (s : LabelStore Rodeo Spur α) (cutoff : ℤ) :
    ∃ removed : List (ℕ × LabelPairs Spur), removed.Nodup ∧
      (∀ entry, entry ∈ removed ↔ ∃ stream, s.streams.lookup entry.1 = some stream ∧
        stream.labels = entry.2 ∧ kept cutoff stream.entries = []) ∧
      (s.evictBefore it cutoff).indexes = removed.foldl unlist s.indexes := by
  obtain ⟨hlook, hmem⟩ := foldl_drainBefore cutoff (it.nodup_keys s.streams) (s, [])
  obtain ⟨hix, emptied, hsub, hsnd⟩ := indexes_foldl_drainBefore cutoff (it.keys s.streams) (s, [])
  rw [evictBefore]
  generalize (it.keys s.streams).foldl (drainBefore cutoff) (s, []) = drained at *
  rw [List.nil_append] at hsnd
  have hnodup : drained.2.Nodup := hsnd ▸ (it.nodup_keys s.streams).sublist hsub
  refine ⟨_, ?_, fun entry => ?_, (indexes_foldl_removeStream hnodup drained.1).trans (by rw [hix])⟩
  · refine hnodup.filterMap fun i i' entry hi hi' => ?_
    obtain ⟨_, _, rfl⟩ := Option.map_eq_some_iff.mp hi
    obtain ⟨_, _, heq⟩ := Option.map_eq_some_iff.mp hi'
    exact (congrArg Prod.fst heq).symm
  · rw [List.mem_filterMap]
    constructor
    · rintro ⟨i, hi, hentry⟩
      obtain ⟨stream', hst', rfl⟩ := Option.map_eq_some_iff.mp hentry
      obtain hi | ⟨hkey, stream, hst, hk⟩ := (hmem i).mp hi
      · exact absurd hi List.not_mem_nil
      · rw [hlook, if_pos hkey, hst] at hst'
        obtain rfl := Option.some.inj hst'
        exact ⟨stream, hst, rfl, hk⟩
    · rintro ⟨stream, hst, hlabels, hk⟩
      have hkey : entry.1 ∈ it.keys s.streams :=
        IterOrder.mem_keys.mpr (Finmap.mem_of_lookup_eq_some hst)
      refine ⟨entry.1, (hmem entry.1).mpr (.inr ⟨hkey, stream, hst, hk⟩), ?_⟩
      rw [hlook, if_pos hkey, hst]
      exact congrArg some (Prod.ext rfl hlabels)

/-! ### The counter -/

omit [LinearOrder Spur] in
theorem total_foldl_drainBefore (cutoff : ℤ) (ids : List ℕ) (acc : LabelStore Rodeo Spur α × List ℕ) :
    (ids.foldl (drainBefore cutoff) acc).1.entryCount ≤ acc.1.entryCount ∧
      (ids.foldl (drainBefore cutoff) acc).1.total = acc.1.total -
        (acc.1.entryCount - (ids.foldl (drainBefore cutoff) acc).1.entryCount) := by
  induction ids generalizing acc with
  | nil => simp
  | cons id ids ih =>
    obtain ⟨hle, htotal⟩ := ih (drainBefore cutoff acc id)
    rw [List.foldl_cons]
    have hstep : (drainBefore cutoff acc id).1.entryCount ≤ acc.1.entryCount ∧
        (drainBefore cutoff acc id).1.total =
          acc.1.total - (acc.1.entryCount - (drainBefore cutoff acc id).1.entryCount) := by
      rw [drainBefore]
      split
      · simp
      next stream hst =>
        have hkept : (kept cutoff stream.entries).length ≤ stream.entries.length :=
          (List.drop_sublist _ _).length_le
        dsimp only
        set drained : LabelStore Rodeo Spur α := { acc.1 with
          streams := acc.1.streams.insert id { stream with entries := kept cutoff stream.entries }
          total := acc.1.total - (stream.entries.length - (kept cutoff stream.entries).length) }
        have hstreams : drained.streams =
          acc.1.streams.insert id { stream with entries := kept cutoff stream.entries } := rfl
        have hcount := entryCount_of_insert hst hstreams
        dsimp only at hcount
        omega
    omega

omit [Timestamped α] in
theorem entryCount_foldl_removeStream {s : LabelStore Rodeo Spur α} {ids : List ℕ}
    (h : ∀ id ∈ ids, s.entriesOf id = []) :
    (ids.foldl removeStream s).entryCount = s.entryCount ∧
      (ids.foldl removeStream s).total = s.total := by
  induction ids generalizing s with
  | nil => exact ⟨rfl, rfl⟩
  | cons id ids ih =>
    have hrest : ∀ i ∈ ids, (s.removeStream id).entriesOf i = [] := by
      intro i hi
      rw [entriesOf_removeStream, h i (List.mem_cons_of_mem _ hi), ite_self]
    rw [List.foldl_cons, (ih hrest).1, (ih hrest).2, removeStream_total,
      entryCount_removeStream (h id List.mem_cons_self)]
    exact ⟨rfl, rfl⟩

/-- The counter goes down by the number of entries that go. -/
theorem total_evictBefore (it : IterOrder ℕ) (s : LabelStore Rodeo Spur α) (cutoff : ℤ) :
    (s.evictBefore it cutoff).entryCount ≤ s.entryCount ∧
      (s.evictBefore it cutoff).total =
        s.total - (s.entryCount - (s.evictBefore it cutoff).entryCount) := by
  obtain ⟨hlook, hmem⟩ := foldl_drainBefore cutoff (it.nodup_keys s.streams) (s, [])
  have htotal := total_foldl_drainBefore cutoff (it.keys s.streams) (s, [])
  rw [evictBefore]
  generalize (it.keys s.streams).foldl (drainBefore cutoff) (s, []) = drained at *
  have hempty : ∀ id ∈ drained.2, drained.1.entriesOf id = [] := by
    intro id hid
    obtain hid | ⟨hkey, stream, hst, hk⟩ := (hmem id).mp hid
    · exact absurd hid List.not_mem_nil
    · rw [entriesOf, hlook, if_pos hkey, hst]
      exact hk
  obtain ⟨hcount, hkeep⟩ := entryCount_foldl_removeStream hempty
  rw [hcount, hkeep]
  exact htotal

/-! ### Two evictions are one -/

omit [LinearOrder Spur] in
theorem kept_kept {entries : List α} (h : entries.SortedBy timestamp) (a b : ℤ) :
    kept b (kept a entries) = kept (max a b) entries := by
  have ha : (kept a entries).SortedBy timestamp := h.drop _
  rw [kept_eq_filter ha, kept_eq_filter h, kept_eq_filter h, List.filter_le_filter_le]

omit [LinearOrder Spur] [Timestamped α] in
theorem eq_of_fields {s s' : LabelStore Rodeo Spur α} (streams : s.streams = s'.streams)
    (indexes : s.indexes = s'.indexes) (interner : s.interner = s'.interner)
    (total : s.total = s'.total) (nextStreamId : s.nextStreamId = s'.nextStreamId) : s = s' := by
  obtain ⟨streams₁, index₁, values₁, interner₁, total₁, ids₁, next₁⟩ := s
  obtain ⟨streams₂, index₂, values₂, interner₂, total₂, ids₂, next₂⟩ := s'
  obtain ⟨hids, hindex, hvalues⟩ : ids₁ = ids₂ ∧ index₁ = index₂ ∧ values₁ = values₂ := by
    simpa [LabelStore.indexes] using indexes
  simp only at streams interner total nextStreamId
  subst streams interner total nextStreamId hids hindex hvalues
  rfl

/-- The streams removed by two evictions are those removed by one. -/
theorem Sorted.perm_removed {s : LabelStore Rodeo Spur α} (h : s.Sorted) (it : IterOrder ℕ)
    {a b : ℤ} {removed₁ removed₂ removed : List (ℕ × LabelPairs Spur)} (hnodup₁ : removed₁.Nodup)
    (hnodup₂ : removed₂.Nodup) (hnodup : removed.Nodup)
    (hmem₁ : ∀ entry, entry ∈ removed₁ ↔ ∃ stream, s.streams.lookup entry.1 = some stream ∧
      stream.labels = entry.2 ∧ kept a stream.entries = [])
    (hmem₂ : ∀ entry, entry ∈ removed₂ ↔ ∃ stream,
      (s.evictBefore it a).streams.lookup entry.1 = some stream ∧
        stream.labels = entry.2 ∧ kept b stream.entries = [])
    (hmem : ∀ entry, entry ∈ removed ↔ ∃ stream, s.streams.lookup entry.1 = some stream ∧
      stream.labels = entry.2 ∧ kept (max a b) stream.entries = []) :
    (removed₁ ++ removed₂).Perm removed := by
  -- what the second eviction finds is what the first one kept something of
  have hmem₂' : ∀ entry, entry ∈ removed₂ ↔ ∃ stream, s.streams.lookup entry.1 = some stream ∧
      stream.labels = entry.2 ∧ kept a stream.entries ≠ [] ∧
        kept (max a b) stream.entries = [] := by
    intro entry
    rw [hmem₂, lookup_evictBefore]
    constructor
    · rintro ⟨stream', hst', hlabels, hk⟩
      obtain ⟨stream, hst, heq⟩ := Option.bind_eq_some_iff.mp hst'
      split at heq
      · exact absurd heq (by simp)
      · next hne =>
        obtain rfl := Option.some.inj heq
        exact ⟨stream, hst, hlabels, hne, kept_kept (h _ stream hst) a b ▸ hk⟩
    · rintro ⟨stream, hst, hlabels, hne, hk⟩
      refine ⟨{ stream with entries := kept a stream.entries }, ?_, hlabels, ?_⟩
      · rw [hst, Option.bind_some, if_neg hne]
      · rw [kept_kept (h _ stream hst), hk]
  have hdisj : ∀ entry ∈ removed₁, entry ∉ removed₂ := by
    intro entry h₁ h₂
    obtain ⟨stream, hst, -, hk⟩ := (hmem₁ entry).mp h₁
    obtain ⟨stream', hst', -, hne, -⟩ := (hmem₂' entry).mp h₂
    obtain rfl := Option.some.inj (hst.symm.trans hst')
    exact hne hk
  refine (List.perm_ext_iff_of_nodup (hnodup₁.append hnodup₂ hdisj) hnodup).mpr fun entry => ?_
  rw [List.mem_append, hmem₁, hmem₂', hmem]
  constructor
  · rintro (⟨stream, hst, hlabels, hk⟩ | ⟨stream, hst, hlabels, -, hk⟩)
    · refine ⟨stream, hst, hlabels, ?_⟩
      rw [← kept_kept (h _ stream hst), hk]
      rfl
    · exact ⟨stream, hst, hlabels, hk⟩
  · rintro ⟨stream, hst, hlabels, hk⟩
    by_cases hka : kept a stream.entries = []
    · exact .inl ⟨stream, hst, hlabels, hka⟩
    · exact .inr ⟨stream, hst, hlabels, hka, hk⟩

/-- **Two evictions by age are one**, with the later cutoff. -/
theorem Sorted.evictBefore_evictBefore {s : LabelStore Rodeo Spur α} (h : s.Sorted)
    (it it' it'' : IterOrder ℕ) (a b : ℤ) :
    (s.evictBefore it a).evictBefore it' b = s.evictBefore it'' (max a b) := by
  have hstreams : ((s.evictBefore it a).evictBefore it' b).streams =
      (s.evictBefore it'' (max a b)).streams := by
    refine Finmap.ext_lookup fun i => ?_
    rw [lookup_evictBefore, lookup_evictBefore, lookup_evictBefore]
    cases hst : s.streams.lookup i with
    | none => rfl
    | some stream =>
      rw [Option.bind_some, Option.bind_some, ← kept_kept (h i stream hst)]
      by_cases hk : kept a stream.entries = []
      · rw [if_pos hk, hk]
        rfl
      · rw [if_neg hk]
        rfl
  have hcount : ((s.evictBefore it a).evictBefore it' b).entryCount =
      (s.evictBefore it'' (max a b)).entryCount := by rw [entryCount, hstreams, entryCount]
  refine eq_of_fields hstreams ?_ ?_ ?_ ?_
  · obtain ⟨removed₁, hnodup₁, hmem₁, hix₁⟩ := indexes_evictBefore it s a
    obtain ⟨removed₂, hnodup₂, hmem₂, hix₂⟩ := indexes_evictBefore it' (s.evictBefore it a) b
    obtain ⟨removed, hnodup, hmem, hix⟩ := indexes_evictBefore it'' s (max a b)
    rw [hix₂, hix₁, hix, ← List.foldl_append]
    exact (h.perm_removed it hnodup₁ hnodup₂ hnodup hmem₁ hmem₂ hmem).foldl_eq _
  · rw [((s.evictBefore it a).evictBefore_frame it' b).1, (s.evictBefore_frame it a).1,
      (s.evictBefore_frame it'' _).1]
  · obtain ⟨hle₁, htotal₁⟩ := total_evictBefore it s a
    obtain ⟨hle₂, htotal₂⟩ := total_evictBefore it' (s.evictBefore it a) b
    obtain ⟨hle, htotal⟩ := total_evictBefore it'' s (max a b)
    omega
  · rw [((s.evictBefore it a).evictBefore_frame it' b).2, (s.evictBefore_frame it a).2,
      (s.evictBefore_frame it'' _).2]

/-! ### Exactness -/

/-- `s'` is `s` without what is older than the cutoff, and without the streams left empty. -/
def EvictsBefore (s s' : LabelStore Rodeo Spur α) (cutoff : ℤ) : Prop :=
  ∀ id, s'.streams.lookup id = (s.streams.lookup id).bind fun stream =>
    let left := stream.entries.filter fun e => decide (cutoff ≤ timestamp e)
    if left = [] then none else some { stream with entries := left }

theorem Sorted.evictsBefore {s : LabelStore Rodeo Spur α} (h : s.Sorted) (it : IterOrder ℕ)
    (cutoff : ℤ) : s.EvictsBefore (s.evictBefore it cutoff) cutoff := by
  intro id
  rw [lookup_evictBefore]
  cases hst : s.streams.lookup id with
  | none => rfl
  | some stream => rw [Option.bind_some, Option.bind_some, kept_eq_filter (h id stream hst)]

end LabelStore

/-! ### The three stores -/

section Stores

variable {Rodeo Spur F64 : Type} [LinearOrder Spur]

namespace LogStore

omit [LinearOrder Spur] in
theorem eq_of_fields {s s' : LogStore Rodeo Spur F64} (streams : s.toLabelStore = s'.toLabelStore)
    (traceIndex : s.traceIndex = s'.traceIndex) : s = s' := by
  obtain ⟨base, index⟩ := s
  obtain ⟨base', index'⟩ := s'
  obtain rfl : base = base' := streams
  obtain rfl : index = index' := traceIndex
  rfl

omit [LinearOrder Spur] in
/-- The streams decide a rebuilt trace index. -/
theorem rebuildTraceIndex_congr (it it' : IterOrder ℕ) {s s' : LogStore Rodeo Spur F64}
    (h : s.toLabelStore = s'.toLabelStore) : s.rebuildTraceIndex it = s'.rebuildTraceIndex it' := by
  refine eq_of_fields h ((represents_rebuildTraceIndex it s).eq
    ((represents_rebuildTraceIndex it' s').congr fun t id => ?_) fun _ _ => Finset.ext)
  show s'.HoldsTrace t id ↔ s.HoldsTrace t id
  rw [HoldsTrace, HoldsTrace, h]

theorem evictBefore_evictBefore {s : LogStore Rodeo Spur F64} (h : s.Sorted)
    (it it' it'' : IterOrder ℕ) (a b : ℤ) :
    (s.evictBefore it a).evictBefore it' b = s.evictBefore it'' (max a b) :=
  rebuildTraceIndex_congr it' it'' (LabelStore.Sorted.evictBefore_evictBefore h it it' it'' a b)

end LogStore

namespace MetricStore

variable [Interner Rodeo Spur]

omit [LinearOrder Spur] [Interner Rodeo Spur] in
theorem eq_of_fields {s s' : MetricStore Rodeo Spur F64}
    (series : s.toLabelStore = s'.toLabelStore)
    (sources : s.normalizedNameSources = s'.normalizedNameSources)
    (metadata : s.metricMetadata = s'.metricMetadata) : s = s' := by
  obtain ⟨base, names, metas⟩ := s
  obtain ⟨base', names', metas'⟩ := s'
  obtain rfl : base = base' := series
  obtain rfl : names = names' := sources
  obtain rfl : metas = metas' := metadata
  rfl

/-- The metadata that is left: what belongs to a name that some series still has. -/
theorem lookup_metricMetadata_evictBefore (it : IterOrder ℕ) (s : MetricStore Rodeo Spur F64)
    (cutoffMs : ℤ) (k : Spur) (metadata : MetricMetadata) :
    (s.evictBefore it cutoffMs).metricMetadata.lookup k = some metadata ↔
      s.metricMetadata.lookup k = some metadata ∧
        ∀ nameKey, Interner.get s.interner "__name__" = some nameKey →
          ∃ id series, (s.evictBefore it cutoffMs).streams.lookup id = some series ∧
            nameOf nameKey series.labels = some k := by
  rw [toLabelStore_evictBefore, evictBefore, pruneOrphanedMetadata,
    (s.toLabelStore.evictBefore_frame it cutoffMs).1]
  cases Interner.get s.interner "__name__" with
  | none => simp
  | some nameKey =>
    simp [Finmap.lookup_retain_eq_some, mem_surviving]

theorem normalizedNameSources_evictBefore (it : IterOrder ℕ) (s : MetricStore Rodeo Spur F64)
    (cutoffMs : ℤ) :
    (s.evictBefore it cutoffMs).normalizedNameSources = s.normalizedNameSources := by
  rw [evictBefore, pruneOrphanedMetadata]
  split <;> rfl

theorem evictBefore_evictBefore {s : MetricStore Rodeo Spur F64} (h : s.Sorted)
    (it it' it'' : IterOrder ℕ) (a b : ℤ) :
    (s.evictBefore it a).evictBefore it' b = s.evictBefore it'' (max a b) := by
  have hbase : ((s.evictBefore it a).evictBefore it' b).toLabelStore =
      (s.evictBefore it'' (max a b)).toLabelStore := by
    rw [toLabelStore_evictBefore, toLabelStore_evictBefore, toLabelStore_evictBefore]
    exact LabelStore.Sorted.evictBefore_evictBefore h it it' it'' a b
  have hinterner : (s.evictBefore it a).interner = s.interner := by
    rw [toLabelStore_evictBefore, (s.toLabelStore.evictBefore_frame it a).1]
  refine eq_of_fields hbase ?_ (Finmap.ext_lookup fun k => Option.ext fun metadata => ?_)
  · rw [normalizedNameSources_evictBefore, normalizedNameSources_evictBefore,
      normalizedNameSources_evictBefore]
  · rw [lookup_metricMetadata_evictBefore, lookup_metricMetadata_evictBefore,
      lookup_metricMetadata_evictBefore, hbase, hinterner, and_assoc]
    refine and_congr_right fun _ => and_iff_right_of_imp fun hsurvives nameKey hkey => ?_
    -- a series that the second eviction leaves was left by the first
    obtain ⟨id, series, hst, hname⟩ := hsurvives nameKey hkey
    rw [← hbase, toLabelStore_evictBefore] at hst
    obtain ⟨series', hst', hlabels, -⟩ := LabelStore.shrinks_evictBefore it' _ b id series hst
    exact ⟨id, series', hst', hlabels ▸ hname⟩

end MetricStore

namespace TraceStore

/-- `s'` is `s` without the spans that start before the cutoff, and without the traces left
empty. -/
def EvictsBefore (s s' : TraceStore Rodeo Spur F64) (cutoffNs : ℤ) : Prop :=
  ∀ t, s'.traces.lookup t = (s.traces.lookup t).bind fun spans =>
    let left := spans.filter fun span => decide (cutoffNs ≤ span.startTimeNs)
    if left = [] then none else some left

theorem AttrRepresents.eq {index index' : FxHashMap Spur (FxHashMap Spur (FxHashSet TraceId))}
    {R : Spur → Spur → TraceId → Prop} (h : AttrRepresents index R) (h' : AttrRepresents index' R) :
    index = index' := by
  refine Finmap.ext_lookup fun key => ?_
  have hinner := (h key).1.eq (h' key).1 fun _ _ => Finset.ext
  have hne := (h key).2
  have hne' := (h' key).2
  cases hk : index.lookup key <;> cases hk' : index'.lookup key <;> simp_all

variable [Interner Rodeo Spur]

/-- **Under the invariant the spans decide the store.** -/
theorem Invariant.eq {s s' : TraceStore Rodeo Spur F64} (h : s.Invariant) (h' : s'.Invariant)
    (traces : s.traces = s'.traces) (interner : s.interner = s'.interner) : s = s' := by
  have hindex : ∀ {K : Type} [DecidableEq K] (ix : SpanIndex Rodeo Spur F64 K),
      ix.index s = ix.index s' := by
    intro K _ ix
    refine (h.index ix).eq ?_ fun _ _ => Finset.ext
    rw [traces]
    exact h'.index ix
  have hattr : s.attrIndex = s'.attrIndex := by
    refine h.attr.eq ?_
    rw [traces]
    exact h'.attr
  have htotal : s.totalSpans = s'.totalSpans := by rw [h.total, h'.total, traces]
  have hservice : s.serviceIndex = s'.serviceIndex := hindex SpanIndex.service
  have hname : s.nameIndex = s'.nameIndex := hindex SpanIndex.name
  have hstatus : s.statusIndex = s'.statusIndex := hindex SpanIndex.status
  obtain ⟨traces₁, service₁, name₁, status₁, attr₁, interner₁, total₁⟩ := s
  simp only at traces interner hattr htotal hservice hname hstatus
  subst traces interner hattr htotal hservice hname hstatus
  rfl

theorem Invariant.evictsBefore {s : TraceStore Rodeo Spur F64} (h : s.Invariant)
    (it : IterOrder TraceId) (cutoffNs : ℤ) :
    s.EvictsBefore (s.evictBefore it cutoffNs) cutoffNs := by
  intro t
  obtain ⟨-, hlook⟩ := drained_evictBefore h it cutoffNs
  set drained := (it.keys s.traces).foldl (drainTrace cutoffNs) ⟨s, [], []⟩
  have htraces : (s.evictBefore it cutoffNs).traces =
      (drained.store.removeTraces drained.emptyTraces).traces :=
    (foldl_reconcile_frame drained.changed _).1
  rw [htraces, hlook, spansOf]
  cases s.traces.lookup t <;> rfl

theorem Invariant.evictBefore_evictBefore {s : TraceStore Rodeo Spur F64} (h : s.Invariant)
    (it it' it'' : IterOrder TraceId) (a b : ℤ) :
    (s.evictBefore it a).evictBefore it' b = s.evictBefore it'' (max a b) := by
  have h₁ := h.evictBefore it a
  refine (h₁.evictBefore it' b).eq (h.evictBefore it'' (max a b)) (Finmap.ext_lookup fun t => ?_) ?_
  · rw [h₁.evictsBefore it' b, h.evictsBefore it a, h.evictsBefore it'' (max a b)]
    cases s.traces.lookup t with
    | none => rfl
    | some spans =>
      rw [Option.bind_some, Option.bind_some, ← List.filter_le_filter_le]
      by_cases hempty : (spans.filter fun span => decide (a ≤ span.startTimeNs)) = []
      · rw [if_pos hempty, hempty]
        rfl
      · rw [if_neg hempty]
        rfl
  · rw [interner_evictBefore, interner_evictBefore, interner_evictBefore]

end TraceStore

/-- **Eviction by age is exact and composes**, in the three stores after any run: exactly what is
older than the cutoff goes, with the streams, series and traces left empty, and two evictions leave
the store that one with the later cutoff leaves. -/
theorem evictBefore_exec [Interner Rodeo Spur] (logOps : List (LogOp Spur F64))
    (metricOps : List (MetricOp F64)) (traceOps : List (TraceOp Spur F64)) :
    let logs := Run.exec LogStore.apply (LogStore.new : LogStore Rodeo Spur F64) logOps
    let metrics := Run.exec MetricStore.apply (MetricStore.new : MetricStore Rodeo Spur F64)
      metricOps
    let traces := Run.exec TraceStore.apply (TraceStore.new : TraceStore Rodeo Spur F64) traceOps
    (∀ it cutoff, logs.EvictsBefore (logs.evictBefore it cutoff).toLabelStore cutoff) ∧
    (∀ it cutoff, metrics.EvictsBefore (metrics.evictBefore it cutoff).toLabelStore cutoff) ∧
    (∀ it cutoff, traces.EvictsBefore (traces.evictBefore it cutoff) cutoff) ∧
    (∀ it it' it'' a b,
      (logs.evictBefore it a).evictBefore it' b = logs.evictBefore it'' (max a b)) ∧
    (∀ it it' it'' a b,
      (metrics.evictBefore it a).evictBefore it' b = metrics.evictBefore it'' (max a b)) ∧
    ∀ it it' it'' a b,
      (traces.evictBefore it a).evictBefore it' b = traces.evictBefore it'' (max a b) := by
  intro logs metrics traces
  have hlogs : logs.Sorted := LogStore.sorted_exec logOps
  have hmetrics : metrics.Sorted := MetricStore.sorted_exec metricOps
  have htraces : traces.Invariant := TraceStore.invariant_exec traceOps
  refine ⟨hlogs.evictsBefore, fun it cutoff => ?_, htraces.evictsBefore,
    LogStore.evictBefore_evictBefore hlogs, MetricStore.evictBefore_evictBefore hmetrics,
    htraces.evictBefore_evictBefore⟩
  rw [MetricStore.toLabelStore_evictBefore]
  exact hmetrics.evictsBefore it cutoff

end Stores

end Aniani
