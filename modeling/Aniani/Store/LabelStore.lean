import Aniani.ForMathlib.IterOrder
import Aniani.Store.Interner
import Aniani.Store.PostingList
import Mathlib.Data.Int.ConditionallyCompleteOrder

/-!
# What the log store and the metric store share

`LogStore` and `MetricStore` keep the same seven pieces of state about a label-indexed family of
time-ordered vectors, and their operations treat them line for line alike. The shared part is one
structure here, `LabelStore`, parametric in the type `α` of the elements: a stream of log entries
in one store is a series of samples in the other. The two stores extend it, and their own
modules keep the names the source has for it.

The free functions of the `store` module (`intern_label_pairs`, `track_label_values`,
`remove_from_label_indexes`, `batch_needs_sort`) come first, then the operations as methods.

## Conventions

* A map that is walked takes the order of the walk as an `IterOrder`.
* Counters of elements are natural numbers, since they count what is in memory; the id counter
  saturates at `u64::MAX` as it does in the source.
* `get_mut` on a missing key leaves the state alone, as the `if let` around it does.

## Main definitions

* `Stream`, `LabelStore` — the state
* `LabelStore.ingest` — find or create the stream of a label set, and append
* `LabelStore.removeStream`, `dropStream`, `evictBefore`, `clearService`, `clear`
* `LabelStore.rebuildStreamIds`, `LabelStore.getRange`
-/

namespace Aniani

/-- A hash map, up to the order it is walked in. -/
abbrev FxHashMap (K V : Type) := Finmap fun _ : K => V

/-- A hash set, up to the order it is walked in. -/
abbrev FxHashSet (V : Type) := Finset V

/-- `u64::MAX`. -/
def u64Max : ℕ := 2 ^ 64 - 1

/-- `u64::saturating_add(1)`. -/
def u64SaturatingSucc (n : ℕ) : ℕ := min (n + 1) u64Max

/-- `i64::MAX`. -/
def i64Max : ℤ := 2 ^ 63 - 1

/-- `i64::MIN`. -/
def i64Min : ℤ := -2 ^ 63

theorem i64Min_le_i64Max : i64Min ≤ i64Max := by decide

theorem zero_mem_i64 : 0 ∈ Set.Icc i64Min i64Max := by decide

/-- The label set of a stream or series, interned and sorted by name. -/
abbrev LabelPairs (Spur : Type) := List (Spur × Spur)

/-- What a stream is made of carries the time it is ordered by. -/
class Timestamped (α : Type) where
  timestamp : α → ℤ

export Timestamped (timestamp)

/-! ### Free functions of the `store` module -/

section Helpers

variable {Rodeo Spur : Type} [LinearOrder Spur] [Interner Rodeo Spur]

/-- Intern the pairs one after another, name before value. -/
def internPairs (interner : Rodeo) : List (String × String) → LabelPairs Spur × Rodeo
  | [] => ([], interner)
  | (k, v) :: labels =>
    let k' := Interner.getOrIntern interner k
    let v' := Interner.getOrIntern k'.2 v
    let rest := internPairs v'.2 labels
    ((k'.1, v'.1) :: rest.1, rest.2)

/-- `intern_label_pairs`: intern a label list and sort it by the key of the name, ties in the
order they came. -/
def internLabelPairs (interner : Rodeo) (labels : List (String × String)) :
    LabelPairs Spur × Rodeo :=
  ((internPairs interner labels).1.sortByKey Prod.fst, (internPairs interner labels).2)

/-- `track_label_values`. -/
def trackLabelValues (labelValues : FxHashMap Spur (FxHashSet Spur)) (labels : LabelPairs Spur) :
    FxHashMap Spur (FxHashSet Spur) :=
  InvertedIndex.addAll labelValues labels

/-- One turn of the loop of `remove_from_label_indexes`: take `id` off the posting list of one
pair; when that empties it, the pair goes from the index and the value from its name, and the name
with its last value. -/
def removeFromLabelIndex (id : ℕ)
    (indexes : FxHashMap (Spur × Spur) PostingList × FxHashMap Spur (FxHashSet Spur))
    (pair : Spur × Spur) :
    FxHashMap (Spur × Spur) PostingList × FxHashMap Spur (FxHashSet Spur) :=
  match indexes.1.lookup pair with
  | none => indexes
  | some pl =>
    if (pl.remove id).isEmpty then
      (indexes.1.erase pair, InvertedIndex.remove indexes.2 pair.1 pair.2)
    else (indexes.1.insert pair (pl.remove id), indexes.2)

/-- `remove_from_label_indexes`. -/
def removeFromLabelIndexes (labelIndex : FxHashMap (Spur × Spur) PostingList)
    (labelValues : FxHashMap Spur (FxHashSet Spur)) (labels : LabelPairs Spur) (id : ℕ) :
    FxHashMap (Spur × Spur) PostingList × FxHashMap Spur (FxHashSet Spur) :=
  labels.foldl (removeFromLabelIndex id) (labelIndex, labelValues)

end Helpers

/-- `windows(2)`. -/
def windows2 {α : Type} (items : List α) : List (α × α) := items.zip items.tail

/-- `batch_needs_sort`: whether the vector is out of order at the boundary of the batch that was
appended at `prevLen`, or within the batch. -/
def batchNeedsSort {α : Type} (items : List α) (prevLen : ℕ) (key : α → ℤ) : Bool :=
  if items.length ≤ prevLen then false
  else if (match items[prevLen - 1]?, items[prevLen]? with
      | some last, some first => decide (0 < prevLen ∧ key first < key last)
      | _, _ => false) then true
  else (windows2 (items.drop prevLen)).any fun w => decide (key w.2 < key w.1)

/-! ### The state -/

/-- `LogStream` and `MetricSeries`: a label set and what was ingested under it. -/
structure Stream (Spur α : Type) where
  labels : LabelPairs Spur
  entries : List α

/-- The fields `LogStore` and `MetricStore` have in common. -/
structure LabelStore (Rodeo Spur α : Type) where
  /-- `streams`, `series`: id to data. -/
  streams : FxHashMap ℕ (Stream Spur α)
  /-- Label pair to the ids that carry it. -/
  labelIndex : FxHashMap (Spur × Spur) PostingList
  /-- Label name to the values it is known with. -/
  labelValues : FxHashMap Spur (FxHashSet Spur)
  interner : Rodeo
  /-- `total_entries`, `total_samples`. -/
  total : ℕ
  /-- `stream_ids`, `series_ids`: label set to id. -/
  streamIds : FxHashMap (LabelPairs Spur) ℕ
  /-- `next_stream_id`, `next_series_id`. -/
  nextStreamId : ℕ

namespace LabelStore

variable {Rodeo Spur α : Type} [LinearOrder Spur] [Interner Rodeo Spur] [Timestamped α]

/-- Create a new empty store. -/
def new : LabelStore Rodeo Spur α where
  streams := ∅
  labelIndex := ∅
  labelValues := ∅
  interner := Interner.empty
  total := 0
  streamIds := ∅
  nextStreamId := 0

/-! ### Ingest -/

/-- A stream for a label set seen for the first time: the next id, an empty vector, and an entry
in the posting list of every pair. -/
def createStream (s : LabelStore Rodeo Spur α) (labels : LabelPairs Spur) :
    LabelStore Rodeo Spur α :=
  { s with
    nextStreamId := u64SaturatingSucc s.nextStreamId
    streamIds := s.streamIds.insert labels s.nextStreamId
    streams := s.streams.insert s.nextStreamId ⟨labels, []⟩
    labelIndex := InvertedIndex.addAll s.labelIndex (labels.map fun pair => (pair, s.nextStreamId)) }

/-- Intern the labels and record their values, before the stream is looked up. -/
def trackLabels (s : LabelStore Rodeo Spur α) (labels : List (String × String)) :
    LabelStore Rodeo Spur α :=
  { s with
    interner := (internLabelPairs s.interner labels).2
    labelValues := trackLabelValues s.labelValues (internLabelPairs s.interner labels).1 }

/-- The first half of an ingest: the id of the stream with these labels, created if need be. -/
def streamFor (s : LabelStore Rodeo Spur α) (labels : List (String × String)) :
    LabelStore Rodeo Spur α × ℕ :=
  match s.streamIds.lookup (internLabelPairs s.interner labels).1 with
  | some id => (s.trackLabels labels, id)
  | none =>
    ((s.trackLabels labels).createStream (internLabelPairs s.interner labels).1, s.nextStreamId)

/-- The vector of a stream after a batch: appended, and sorted if the batch broke the order. -/
def appendBatch (entries batch : List α) : List α :=
  if decide (0 < batch.length) && batchNeedsSort (entries ++ batch) entries.length timestamp then
    (entries ++ batch).sortByKey timestamp
  else entries ++ batch

/-- The second half of an ingest: append to the stream, if it is there. -/
def extendStream (s : LabelStore Rodeo Spur α) (id : ℕ) (batch : List α) :
    LabelStore Rodeo Spur α :=
  match s.streams.lookup id with
  | none => s
  | some stream =>
    { s with
      streams := s.streams.insert id { stream with entries := appendBatch stream.entries batch }
      total := s.total + batch.length }

/-- `ingest_stream`, `ingest_samples`. -/
def ingest (s : LabelStore Rodeo Spur α) (labels : List (String × String)) (batch : List α) :
    LabelStore Rodeo Spur α :=
  (s.streamFor labels).1.extendStream (s.streamFor labels).2 batch

/-- Intern one string, as the ingest handlers do for attribute keys and values. -/
def intern (s : LabelStore Rodeo Spur α) (string : String) : LabelStore Rodeo Spur α :=
  { s with interner := (Interner.getOrIntern s.interner string).2 }

/-! ### Removal -/

/-- Take a stream out of the map, the identity map and the label indexes. -/
def removeStream (s : LabelStore Rodeo Spur α) (id : ℕ) : LabelStore Rodeo Spur α :=
  match s.streams.lookup id with
  | none => s
  | some stream =>
    { s with
      streams := s.streams.erase id
      streamIds := s.streamIds.erase stream.labels
      labelIndex := (removeFromLabelIndexes s.labelIndex s.labelValues stream.labels id).1
      labelValues := (removeFromLabelIndexes s.labelIndex s.labelValues stream.labels id).2 }

/-- Take a stream out together with its share of the total. -/
def dropStream (s : LabelStore Rodeo Spur α) (id : ℕ) : LabelStore Rodeo Spur α :=
  match s.streams.lookup id with
  | none => s
  | some stream => { s.removeStream id with total := s.total - stream.entries.length }

/-- How many leading elements of a vector are older than the cutoff. -/
def drainCount (cutoff : ℤ) (entries : List α) : ℕ :=
  entries.partitionPoint fun e => decide (timestamp e < cutoff)

/-- What `drain(..drain_count)` leaves of a vector. -/
def kept (cutoff : ℤ) (entries : List α) : List α := entries.drop (drainCount cutoff entries)

/-- One turn of the first loop of `evict_before`: drain the old elements of one stream, and
remember it if nothing is left. -/
def drainBefore (cutoff : ℤ) (acc : LabelStore Rodeo Spur α × List ℕ) (id : ℕ) :
    LabelStore Rodeo Spur α × List ℕ :=
  match acc.1.streams.lookup id with
  | none => acc
  | some stream =>
    ({ acc.1 with
        streams := acc.1.streams.insert id { stream with entries := kept cutoff stream.entries }
        total := acc.1.total - (stream.entries.length - (kept cutoff stream.entries).length) },
      if (kept cutoff stream.entries).isEmpty then acc.2 ++ [id] else acc.2)

/-- `evict_before`: drain every stream, then remove the ones that were left empty. -/
def evictBefore (it : IterOrder ℕ) (s : LabelStore Rodeo Spur α) (cutoff : ℤ) :
    LabelStore Rodeo Spur α :=
  let drained := (it.keys s.streams).foldl (drainBefore cutoff) (s, [])
  drained.2.foldl removeStream drained.1

/-- The eviction key of a stream: the time of its first element, last of all when it is empty. -/
def oldestTimestamp (s : LabelStore Rodeo Spur α) (id : ℕ) : ℤ :=
  ((s.streams.lookup id).bind fun stream => stream.entries.head?).elim i64Max timestamp

/-- The ids in the order `evict_to_max` takes them: oldest first element first. -/
def evictionOrder (it : IterOrder ℕ) (s : LabelStore Rodeo Spur α) : List ℕ :=
  (it.keys s.streams).sortByKey s.oldestTimestamp

/-- `clear`. -/
def clear (_ : LabelStore Rodeo Spur α) : LabelStore Rodeo Spur α := new

/-- The ids whose labels carry the pair `service = name`; none where one of the two strings is
unknown. -/
def serviceStreams (s : LabelStore Rodeo Spur α) (service : String) : Option (List ℕ) := do
  let serviceSpur ← Interner.get s.interner service
  let serviceKey ← Interner.get s.interner "service"
  let pl ← s.labelIndex.lookup (serviceKey, serviceSpur)
  return pl.ids

/-- `clear_service`: drop every stream of the service. -/
def clearService (s : LabelStore Rodeo Spur α) (service : String) : LabelStore Rodeo Spur α :=
  match s.serviceStreams service with
  | none => s
  | some ids => ids.foldl dropStream s

/-! ### Restoring -/

/-- One turn of the loop of `rebuild_stream_ids`. -/
def rebuildStreamId (s : LabelStore Rodeo Spur α) (id : ℕ) : LabelStore Rodeo Spur α :=
  match s.streams.lookup id with
  | none => s
  | some stream =>
    { s with
      streamIds := s.streamIds.insert stream.labels id
      nextStreamId := max s.nextStreamId (u64SaturatingSucc id) }

/-- `rebuild_stream_ids`, `rebuild_series_ids`: recompute the identity map and the next id from
the streams. -/
def rebuildStreamIds (it : IterOrder ℕ) (s : LabelStore Rodeo Spur α) : LabelStore Rodeo Spur α :=
  ((it.keys s.streams).sortByKey fun id => id).foldl rebuildStreamId
    { s with streamIds := ∅, nextStreamId := 0 }

/-! ### Reading -/

/-- `get_entries`, `get_samples`: the slice of a stream between the two binary searches, nothing
where the slice would be out of range. -/
def getRange (s : LabelStore Rodeo Spur α) (id : ℕ) (start stop : ℤ) : Option (List α) :=
  match s.streams.lookup id with
  | some stream =>
    stream.entries.slice? (stream.entries.partitionPoint fun e => decide (timestamp e < start))
      (stream.entries.partitionPoint fun e => decide (timestamp e ≤ stop))
  | none => some []

/-- A label set as strings. -/
def resolveLabels (s : LabelStore Rodeo Spur α) (labels : LabelPairs Spur) :
    List (String × String) :=
  labels.map fun pair =>
    (Interner.resolve s.interner pair.1, Interner.resolve s.interner pair.2)

/-- `get_stream_labels`, `get_series_labels`. -/
def getStreamLabels (s : LabelStore Rodeo Spur α) (id : ℕ) : Option (List (String × String)) :=
  (s.streams.lookup id).map fun stream => s.resolveLabels stream.labels

/-- `label_names`. -/
def labelNames (it : IterOrder Spur) (s : LabelStore Rodeo Spur α) : List String :=
  (it.keys s.labelValues).map (Interner.resolve s.interner)

/-- `get_label_values`. -/
def getLabelValues (it : IterOrder Spur) (s : LabelStore Rodeo Spur α) (name : String) :
    List String :=
  match Interner.get s.interner name with
  | none => []
  | some spur =>
    match s.labelValues.lookup spur with
    | none => []
    | some values => (it.order values).map (Interner.resolve s.interner)

end LabelStore

end Aniani
