import Aniani.Store.Consistency

/-!
# The contents of a label store

Under the ids and the indexes a label store is a partial map from label sets to vectors. Each
operation does something simple to that map, whatever the ids, and on a store whose indexes fit the
map says everything there is to say about the streams.

## Main definitions

* `LabelStore.contents` — the vector of a label set
* `LabelStore.entriesOf` — the vector of an id

## Main results

* `Indexed.contents_eq_some_iff` — the live streams, as a graph
* `Indexed.contents_ingest`, `contents_evictBefore`, `contents_clearService`, ... — the operations
-/

namespace Aniani

open Interner

namespace LabelStore

variable {Rodeo Spur α : Type} [LinearOrder Spur] [Interner Rodeo Spur] [Timestamped α]

omit [Timestamped α] [Interner Rodeo Spur] in
/-- The vector of a label set, if it has a stream. -/
def contents (s : LabelStore Rodeo Spur α) (labels : LabelPairs Spur) : Option (List α) :=
  ((s.streamIds.lookup labels).bind fun id => s.streams.lookup id).map Stream.entries

/-- What a stream holds, nothing if there is no such stream. -/
def entriesOf (s : LabelStore Rodeo Spur α) (id : ℕ) : List α :=
  ((s.streams.lookup id).map Stream.entries).getD []

omit [LinearOrder Spur] [Interner Rodeo Spur] in
theorem sortedBy_entriesOf (s : LabelStore Rodeo Spur α) (h : s.Sorted) (id : ℕ) :
    (s.entriesOf id).SortedBy timestamp := by
  rw [entriesOf]
  cases hst : s.streams.lookup id with
  | none => exact List.sortedBy_nil _
  | some stream => exact h id stream hst

/-- **The contents are the live streams**, without their ids. -/
theorem Indexed.contents_eq_some_iff {s : LabelStore Rodeo Spur α} (h : s.Indexed)
    {labels : LabelPairs Spur} {entries : List α} :
    s.contents labels = some entries ↔ ∃ id, s.streams.lookup id = some ⟨labels, entries⟩ := by
  rw [contents, Option.map_eq_some_iff]
  constructor
  · rintro ⟨stream, hbind, rfl⟩
    obtain ⟨id, hid, hst⟩ := Option.bind_eq_some_iff.mp hbind
    obtain ⟨stream', hst', rfl⟩ := (h.streamIds labels id).mp hid
    obtain rfl := Option.some.inj (hst.symm.trans hst')
    exact ⟨id, hst⟩
  · rintro ⟨id, hst⟩
    refine ⟨_, Option.bind_eq_some_iff.mpr ⟨id, ?_, hst⟩, rfl⟩
    exact (h.streamIds labels id).mpr ⟨_, hst, rfl⟩

theorem Indexed.contents_of_lookup {s : LabelStore Rodeo Spur α} (h : s.Indexed) {id : ℕ}
    {stream : Stream Spur α} (hst : s.streams.lookup id = some stream) :
    s.contents stream.labels = some stream.entries :=
  h.contents_eq_some_iff.mpr ⟨id, hst⟩

/-- The streams decide the contents. -/
theorem Indexed.contents_congr {s s' : LabelStore Rodeo Spur α} (h : s.Indexed) (h' : s'.Indexed)
    (hs : ∀ stream, (∃ id, s'.streams.lookup id = some stream) ↔
      ∃ id, s.streams.lookup id = some stream) : s'.contents = s.contents := by
  funext labels
  refine Option.ext fun entries => ?_
  rw [h'.contents_eq_some_iff, h.contents_eq_some_iff]
  exact hs ⟨labels, entries⟩

/-- A label set has no id exactly when it has no vector. -/
theorem Indexed.contents_eq_none_iff {s : LabelStore Rodeo Spur α} (h : s.Indexed)
    {labels : LabelPairs Spur} : s.contents labels = none ↔ s.streamIds.lookup labels = none := by
  rw [contents, Option.map_eq_none_iff]
  cases hid : s.streamIds.lookup labels with
  | none => simp
  | some id =>
    obtain ⟨stream, hst, -⟩ := (h.streamIds labels id).mp hid
    simp [hst]

/-! ### What the operations do to the contents -/

/-- **Ingest** appends the batch to the vector of the label set. -/
theorem Indexed.contents_ingest {s : LabelStore Rodeo Spur α} (h : s.Indexed)
    (labels : List (String × String)) (batch : List α) (labels' : LabelPairs Spur) :
    (s.ingest labels batch).contents labels' =
      if labels' = (internLabelPairs s.interner labels).1 then
        some (appendBatch ((s.contents labels').getD []) batch)
      else s.contents labels' := by
  set pairs := (internLabelPairs s.interner labels).1 with hpairs
  cases hid : s.streamIds.lookup pairs with
  | none =>
    have hnew := ingest_of_none hid batch
    have hlook : (s.ingest labels batch).contents labels' =
        (((s.streamIds.insert pairs s.nextStreamId).lookup labels').bind
          (s.streams.insert s.nextStreamId ⟨pairs, appendBatch [] batch⟩).lookup).map
            Stream.entries := by
      rw [contents, hnew]
      rfl
    rw [hlook, Finmap.lookup_insert_eq_ite]
    split
    · next hl =>
      rw [Option.bind_some, Finmap.lookup_insert, hl, h.contents_eq_none_iff.mpr hid]
      rfl
    · -- the id of another label set is not the new one
      rw [contents]
      cases hid' : s.streamIds.lookup labels' with
      | none => rfl
      | some id =>
        obtain ⟨stream, hst, -⟩ := (h.streamIds labels' id).mp hid'
        rw [Option.bind_some, Option.bind_some, Finmap.lookup_insert_of_ne _ (h.next hst).ne]
  | some id =>
    obtain ⟨stream, hst, hlabels⟩ := (h.streamIds pairs id).mp hid
    have hlook : (s.ingest labels batch).contents labels' =
        ((s.streamIds.lookup labels').bind
          (s.streams.insert id { stream with
            entries := appendBatch stream.entries batch }).lookup).map Stream.entries := by
      rw [contents, ingest_of_some hid hst batch]
      rfl
    rw [hlook]
    split
    · next hl =>
      rw [hl, hid, Option.bind_some, Finmap.lookup_insert, contents, hid, Option.bind_some, hst]
      rfl
    · next hl =>
      rw [contents]
      cases hid' : s.streamIds.lookup labels' with
      | none => rfl
      | some id' =>
        have hne : id' ≠ id := by
          rintro rfl
          obtain ⟨stream', hst', hlabels'⟩ := (h.streamIds labels' id').mp hid'
          obtain rfl := Option.some.inj (hst'.symm.trans hst)
          exact hl (hlabels'.symm.trans hlabels)
        rw [Option.bind_some, Option.bind_some, Finmap.lookup_insert_of_ne _ hne]

/-- A label set gets an id exactly when it has no vector yet. -/
theorem Indexed.created_eq {s : LabelStore Rodeo Spur α} (h : s.Indexed)
    (labels : List (String × String)) :
    s.created labels =
      if s.contents (internLabelPairs s.interner labels).1 = none then 1 else 0 := by
  rw [created, if_congr h.contents_eq_none_iff.symm rfl rfl]

/-- **Eviction by age** drops the old end of every vector, and the vectors with nothing left. -/
theorem Invariant.contents_evictBefore {s : LabelStore Rodeo Spur α} (h : s.Invariant)
    (it : IterOrder ℕ) (cutoff : ℤ) (labels : LabelPairs Spur) :
    (s.evictBefore it cutoff).contents labels = (s.contents labels).bind fun entries =>
      if kept cutoff entries = [] then none else some (kept cutoff entries) := by
  refine Option.ext fun entries => ?_
  rw [(h.evictBefore it cutoff).contents_eq_some_iff, Option.bind_eq_some_iff]
  simp only [lookup_evictBefore, Option.bind_eq_some_iff, h.contents_eq_some_iff]
  constructor
  · rintro ⟨id, stream, hst, heq⟩
    split at heq
    · exact absurd heq (by simp)
    · next hk =>
      obtain ⟨rfl, rfl⟩ := Stream.mk.inj (Option.some.inj heq)
      exact ⟨stream.entries, ⟨id, hst⟩, if_neg hk⟩
  · rintro ⟨old, ⟨id, hst⟩, heq⟩
    split at heq
    · exact absurd heq (by simp)
    · next hk =>
      obtain rfl := Option.some.inj heq
      exact ⟨id, _, hst, if_neg hk⟩

/-- **`clear_service`** drops the vectors of the label sets with the service. -/
theorem Invariant.contents_clearService {s : LabelStore Rodeo Spur α} (h : s.Invariant)
    (service : String) (labels : LabelPairs Spur) :
    (s.clearService service).contents labels = (s.contents labels).filter fun _ =>
      decide (("service", service) ∉ s.resolveLabels labels) := by
  refine Option.ext fun entries => ?_
  rw [(h.clearService service).contents_eq_some_iff, Option.filter_eq_some_iff,
    h.contents_eq_some_iff]
  simp only [h.toIndexed.lookup_clearService, Option.filter_eq_some_iff, exists_and_right]

/-- Rebuilding the identity map of a store that fits does not change the contents. -/
theorem Invariant.contents_rebuildStreamIds {s : LabelStore Rodeo Spur α} (h : s.Invariant)
    (hroom : s.nextStreamId ≤ u64Max) (it : IterOrder ℕ) :
    (s.rebuildStreamIds it).contents = s.contents :=
  h.toIndexed.contents_congr (h.rebuildStreamIds hroom it).1.toIndexed fun _ => by
    rw [(rebuildStreamIds_frame it s).1]

end LabelStore

end Aniani
