import Aniani.ForMathlib.Run
import Aniani.Store.Attribute
import Aniani.Store.Consistency

/-!
# The log store

`LogStore` is a label store of log entries with one more index, from trace ids to the streams that
hold an entry of the trace. Ingest adds to it, the two evictions rebuild it, `clear` empties it,
and `clear_service` leaves it alone.

A run of the store is a list of `LogOp`s.

## Main definitions

* `LogEntry`, `LogStore` — the state
* `LogStore.ingestStream`, `evictBefore`, `evictToMax`, `clear`, `clearService`
* `LogStore.getEntries`, `streamsForTrace`
* `LogOp`, `LogStore.apply` — the operations as data

## Main results

* `LogStore.invariant_exec` — the invariant of the label store, along every run with ids left
* `LogStore.sorted_exec` — the order of the entries, along every run
-/

namespace Aniani

/-- A single log entry. -/
structure LogEntry (Spur F64 : Type) where
  timestampNs : ℤ
  line : String
  /-- Global ingest sequence. -/
  ingestSeq : ℕ
  traceId : Option TraceId
  spanId : Option SpanId
  severityNumber : ℤ
  severityText : Option Spur
  attributes : Attributes Spur F64

instance {Spur F64 : Type} : Timestamped (LogEntry Spur F64) := ⟨LogEntry.timestampNs⟩

/-- In-memory log storage. -/
structure LogStore (Rodeo Spur F64 : Type) extends LabelStore Rodeo Spur (LogEntry Spur F64) where
  /-- Trace id to the streams that hold an entry of the trace. -/
  traceIndex : FxHashMap TraceId (FxHashSet ℕ)

namespace LogStore

variable {Rodeo Spur F64 : Type} [LinearOrder Spur] [Interner Rodeo Spur]

/-- Create a new empty log store. -/
def new : LogStore Rodeo Spur F64 where
  toLabelStore := LabelStore.new
  traceIndex := ∅

/-! ### Ingest -/

/-- The trace ids of a list of entries, each with the stream the entries are in. -/
def tracePairs (id : ℕ) (entries : List (LogEntry Spur F64)) : List (TraceId × ℕ) :=
  entries.filterMap fun e => e.traceId.map fun t => (t, id)

/-- `ingest_stream`. -/
def ingestStream (s : LogStore Rodeo Spur F64) (labels : List (String × String))
    (entries : List (LogEntry Spur F64)) : LogStore Rodeo Spur F64 :=
  let found := s.toLabelStore.streamFor labels
  match found.1.streams.lookup found.2 with
  | none => { s with toLabelStore := found.1 }
  | some _ =>
    { toLabelStore := found.1.extendStream found.2 entries
      traceIndex := InvertedIndex.addAll s.traceIndex (tracePairs found.2 entries) }

/-- `interner.get_or_intern`, as the ingest handlers call it. -/
def intern (s : LogStore Rodeo Spur F64) (string : String) : LogStore Rodeo Spur F64 :=
  { s with toLabelStore := s.toLabelStore.intern string }

/-! ### Removal -/

/-- `rebuild_trace_index`. -/
def rebuildTraceIndex (it : IterOrder ℕ) (s : LogStore Rodeo Spur F64) :
    LogStore Rodeo Spur F64 :=
  { s with
    traceIndex := InvertedIndex.addAll ∅ ((it.keys s.streams).flatMap fun id =>
      ((s.streams.lookup id).map fun stream => tracePairs id stream.entries).getD []) }

/-- `evict_before`. -/
def evictBefore (it : IterOrder ℕ) (s : LogStore Rodeo Spur F64) (cutoff : ℤ) :
    LogStore Rodeo Spur F64 :=
  rebuildTraceIndex it { s with toLabelStore := s.toLabelStore.evictBefore it cutoff }

/-- One turn of the loop of `evict_to_max`: with `remaining` entries still to go, drain the front
of one stream, and remove the stream if that empties it. -/
def drainOldest (acc : LabelStore Rodeo Spur (LogEntry Spur F64) × ℕ) (id : ℕ) :
    LabelStore Rodeo Spur (LogEntry Spur F64) × ℕ :=
  if acc.2 = 0 then acc
  else
    match acc.1.streams.lookup id with
    | none => acc
    | some stream =>
      let drain := min acc.2 stream.entries.length
      let drained := { acc.1 with
        streams := acc.1.streams.insert id { stream with entries := stream.entries.drop drain }
        total := acc.1.total - drain }
      (if (stream.entries.drop drain).isEmpty then drained.removeStream id else drained,
        acc.2 - drain)

/-- `evict_to_max`. -/
def evictToMax (it : IterOrder ℕ) (s : LogStore Rodeo Spur F64) (maxEntries : ℕ) :
    LogStore Rodeo Spur F64 :=
  if s.total ≤ maxEntries then s
  else
    rebuildTraceIndex it { s with
      toLabelStore := ((s.evictionOrder it).foldl drainOldest
        (s.toLabelStore, s.total - maxEntries)).1 }

/-- `clear`. -/
def clear (_ : LogStore Rodeo Spur F64) : LogStore Rodeo Spur F64 := new

/-- `clear_service`. -/
def clearService (s : LogStore Rodeo Spur F64) (service : String) : LogStore Rodeo Spur F64 :=
  { s with toLabelStore := s.toLabelStore.clearService service }

/-- `rebuild_stream_ids`. -/
def rebuildStreamIds (it : IterOrder ℕ) (s : LogStore Rodeo Spur F64) : LogStore Rodeo Spur F64 :=
  { s with toLabelStore := s.toLabelStore.rebuildStreamIds it }

/-! ### Reading -/

/-- `streams_for_trace`. -/
def streamsForTrace (it : IterOrder ℕ) (s : LogStore Rodeo Spur F64) (t : TraceId) : List ℕ :=
  ((s.traceIndex.lookup t).map it.order).getD []

/-- `get_entries`, nothing where the slice would be out of range. -/
def getEntries (s : LogStore Rodeo Spur F64) (id : ℕ) (startNs endNs : ℤ) :
    Option (List (LogEntry Spur F64)) :=
  s.getRange id startNs endNs

end LogStore

/-! ### Runs -/

/-- The operations of a log store. The walks of a hash map come with the order they are made in. -/
inductive LogOp (Spur F64 : Type) where
  | ingestStream (labels : List (String × String)) (entries : List (LogEntry Spur F64))
  | intern (string : String)
  | evictBefore (it : IterOrder ℕ) (cutoffNs : ℤ)
  | evictToMax (it : IterOrder ℕ) (maxEntries : ℕ)
  | clear
  | clearService (service : String)
  | rebuildStreamIds (it : IterOrder ℕ)

namespace LogStore

variable {Rodeo Spur F64 : Type} [LinearOrder Spur] [Interner Rodeo Spur]

/-- One operation. -/
def apply (s : LogStore Rodeo Spur F64) : LogOp Spur F64 → LogStore Rodeo Spur F64
  | .ingestStream labels entries => s.ingestStream labels entries
  | .intern string => s.intern string
  | .evictBefore it cutoffNs => s.evictBefore it cutoffNs
  | .evictToMax it maxEntries => s.evictToMax it maxEntries
  | .clear => s.clear
  | .clearService service => s.clearService service
  | .rebuildStreamIds it => s.rebuildStreamIds it

/-- The ids an operation creates. -/
def created (s : LogStore Rodeo Spur F64) : LogOp Spur F64 → ℕ
  | .ingestStream labels _ => s.toLabelStore.created labels
  | _ => 0

/-- The ids a run creates. -/
def idsCreated (s : LogStore Rodeo Spur F64) (ops : List (LogOp Spur F64)) : ℕ :=
  Run.cost apply created s ops

/-! ### The label store underneath -/

/-- The trace index apart, ingest is the ingest of the label store. -/
theorem toLabelStore_ingestStream (s : LogStore Rodeo Spur F64) (labels : List (String × String))
    (entries : List (LogEntry Spur F64)) :
    (s.ingestStream labels entries).toLabelStore = s.toLabelStore.ingest labels entries := by
  rw [ingestStream, LabelStore.ingest]
  split
  · next hnone => rw [LabelStore.extendStream, hnone]
  · rfl

omit [Interner Rodeo Spur] in
/-- What `evict_to_max` leaves of one stream is a suffix of it. -/
theorem shrinks_drainOldest (acc : LabelStore Rodeo Spur (LogEntry Spur F64) × ℕ) (id : ℕ) :
    acc.1.Shrinks (drainOldest acc id).1 := by
  rw [drainOldest]
  split
  · exact LabelStore.Shrinks.refl _
  split
  · exact LabelStore.Shrinks.refl _
  next stream hst =>
    intro i stream' h
    dsimp only at h
    have hdrained : (acc.1.streams.insert id { stream with
        entries := stream.entries.drop (min acc.2 stream.entries.length) }).lookup i =
        some stream' := by
      split at h
      · rw [LabelStore.lookup_removeStream] at h
        split at h
        · exact absurd h (by simp)
        · exact h
      · exact h
    rw [Finmap.lookup_insert_eq_ite] at hdrained
    split at hdrained
    · next hi =>
      obtain rfl := Option.some.inj hdrained
      exact ⟨stream, hi ▸ hst, rfl, List.drop_sublist _ _⟩
    · exact ⟨stream', hdrained, rfl, List.Sublist.refl _⟩

omit [Interner Rodeo Spur] in
theorem shrinks_foldl_drainOldest (acc : LabelStore Rodeo Spur (LogEntry Spur F64) × ℕ)
    (ids : List ℕ) : acc.1.Shrinks (ids.foldl drainOldest acc).1 := by
  induction ids generalizing acc with
  | nil => exact LabelStore.Shrinks.refl _
  | cons id ids ih => exact (shrinks_drainOldest acc id).trans (ih _)

theorem invariant_drainOldest {acc : LabelStore Rodeo Spur (LogEntry Spur F64) × ℕ}
    (h : acc.1.Invariant) (id : ℕ) : (drainOldest acc id).1.Invariant := by
  rw [drainOldest]
  split
  · exact h
  split
  · exact h
  next stream hst =>
    have hsorted : (stream.entries.drop (min acc.2 stream.entries.length)).SortedBy timestamp :=
      (h.sorted hst).drop _
    have htotal : acc.1.total - min acc.2 stream.entries.length + stream.entries.length =
        acc.1.total + (stream.entries.drop (min acc.2 stream.entries.length)).length := by
      have := Finmap.le_total (fun st : Stream Spur (LogEntry Spur F64) => st.entries.length) hst
      have := h.total
      rw [List.length_drop]
      omega
    have hdrained := h.setEntries hst hsorted htotal
    dsimp only
    split
    · next hempty =>
      refine hdrained.removeStream fun st hst' => ?_
      rw [Finmap.lookup_insert] at hst'
      obtain rfl := Option.some.inj hst'
      exact List.isEmpty_iff.mp hempty
    · exact hdrained

theorem invariant_foldl_drainOldest {acc : LabelStore Rodeo Spur (LogEntry Spur F64) × ℕ}
    (h : acc.1.Invariant) (ids : List ℕ) : (ids.foldl drainOldest acc).1.Invariant := by
  induction ids generalizing acc with
  | nil => exact h
  | cons id ids ih => exact ih (invariant_drainOldest h id)

omit [Interner Rodeo Spur] in
theorem nextStreamId_foldl_drainOldest (acc : LabelStore Rodeo Spur (LogEntry Spur F64) × ℕ)
    (ids : List ℕ) :
    (ids.foldl drainOldest acc).1.nextStreamId = acc.1.nextStreamId := by
  induction ids generalizing acc with
  | nil => rfl
  | cons id ids ih =>
    rw [List.foldl_cons, ih, drainOldest]
    split
    · rfl
    split
    · rfl
    dsimp only
    split
    · exact LabelStore.removeStream_nextStreamId _ _
    · rfl

/-! ### Every run -/

theorem invariant_apply {s : LogStore Rodeo Spur F64} (h : s.Invariant) (op : LogOp Spur F64)
    (hroom : s.nextStreamId + s.created op ≤ u64Max) : (s.apply op).Invariant := by
  cases op with
  | ingestStream labels entries =>
    rw [apply, toLabelStore_ingestStream]
    exact h.ingest hroom entries
  | intern string => exact h.intern string
  | evictBefore it cutoffNs => exact h.evictBefore it cutoffNs
  | evictToMax it maxEntries =>
    rw [apply, evictToMax]
    split
    · exact h
    · exact invariant_foldl_drainOldest h _
  | clear => exact LabelStore.invariant_new
  | clearService service => exact h.clearService service
  | rebuildStreamIds it => exact (h.rebuildStreamIds hroom it).1

theorem nextStreamId_apply_le {s : LogStore Rodeo Spur F64} (h : s.Invariant)
    (op : LogOp Spur F64) (hroom : s.nextStreamId + s.created op ≤ u64Max) :
    (s.apply op).nextStreamId ≤ s.nextStreamId + s.created op := by
  cases op with
  | ingestStream labels entries =>
    rw [apply, toLabelStore_ingestStream]
    exact s.toLabelStore.nextStreamId_ingest_le labels entries
  | intern string => exact le_rfl
  | evictBefore it cutoffNs => exact (s.toLabelStore.evictBefore_frame it cutoffNs).2.le
  | evictToMax it maxEntries =>
    rw [apply, evictToMax]
    split
    · exact le_rfl
    · exact (nextStreamId_foldl_drainOldest _ _).le
  | clear => exact Nat.zero_le _
  | clearService service => exact (s.toLabelStore.clearService_nextStreamId service).le
  | rebuildStreamIds it => exact (h.rebuildStreamIds hroom it).2

/-- **Every run keeps the label store fitting**, as long as it does not run out of ids. -/
theorem invariant_exec {s : LogStore Rodeo Spur F64} (h : s.Invariant)
    {ops : List (LogOp Spur F64)} (hroom : s.nextStreamId + s.idsCreated ops ≤ u64Max) :
    (Run.exec apply s ops).Invariant :=
  Run.exec_invariant_cost (P := fun s : LogStore Rodeo Spur F64 => s.Invariant)
    (fun _ op hop hs => invariant_apply hs op hop)
    (fun _ op hop hs => nextStreamId_apply_le hs op hop) h hroom

/-- A store reached with ids left fits, and leaves the rest of the ids to the rest of the run. -/
theorem room_exec {s : LogStore Rodeo Spur F64} (h : s.Invariant) {ops ops' : List (LogOp Spur F64)}
    (hroom : s.nextStreamId + s.idsCreated (ops ++ ops') ≤ u64Max) :
    (Run.exec apply s ops).Invariant ∧
      (Run.exec apply s ops).nextStreamId + (Run.exec apply s ops).idsCreated ops' ≤ u64Max := by
  have hstep : ∀ (s : LogStore Rodeo Spur F64) (op : LogOp Spur F64),
      s.nextStreamId + s.created op ≤ u64Max → s.Invariant → (s.apply op).Invariant :=
    fun _ op hop hs => invariant_apply hs op hop
  have hle : ∀ (s : LogStore Rodeo Spur F64) (op : LogOp Spur F64), s.nextStreamId + s.created op ≤ u64Max →
      s.Invariant → (s.apply op).nextStreamId ≤ s.nextStreamId + s.created op :=
    fun _ op hop hs => nextStreamId_apply_le hs op hop
  exact Run.exec_invariant_room hstep hle h hroom

theorem everyStream_apply {P : Stream Spur (LogEntry Spur F64) → Prop}
    (hP : LabelStore.StreamInvariant P) {s : LogStore Rodeo Spur F64}
    (h : LabelStore.EveryStream P s.toLabelStore) (op : LogOp Spur F64) :
    LabelStore.EveryStream P (s.apply op).toLabelStore := by
  cases op with
  | ingestStream labels entries =>
    rw [apply, toLabelStore_ingestStream]
    exact hP.ingest h labels entries
  | intern string => exact h
  | evictBefore it cutoffNs =>
    exact hP.of_shrinks h (s.toLabelStore.shrinks_evictBefore it cutoffNs)
  | evictToMax it maxEntries =>
    rw [apply, evictToMax]
    split
    · exact h
    · exact hP.of_shrinks h (shrinks_foldl_drainOldest (s.toLabelStore, _) _)
  | clear => exact LabelStore.everyStream_new
  | clearService service => exact hP.of_shrinks h (s.toLabelStore.shrinks_clearService service)
  | rebuildStreamIds it =>
    intro id stream hst
    have hst : (s.toLabelStore.rebuildStreamIds it).streams.lookup id = some stream := hst
    rw [(LabelStore.rebuildStreamIds_frame _ _).1] at hst
    exact h id stream hst

/-- **What is so of a stream from its creation on is so of every stream of every run.** -/
theorem everyStream_exec {P : Stream Spur (LogEntry Spur F64) → Prop}
    (hP : LabelStore.StreamInvariant P) (ops : List (LogOp Spur F64)) :
    LabelStore.EveryStream P (Run.exec apply (new : LogStore Rodeo Spur F64) ops).toLabelStore :=
  Run.exec_invariant
    (P := fun s : LogStore Rodeo Spur F64 => LabelStore.EveryStream P s.toLabelStore)
    (fun _ op hs => everyStream_apply hP hs op) LabelStore.everyStream_new ops

/-- **Every run keeps every stream in the order of time.** -/
theorem sorted_exec (ops : List (LogOp Spur F64)) :
    (Run.exec apply (new : LogStore Rodeo Spur F64) ops).Sorted :=
  everyStream_exec LabelStore.streamInvariant_sorted ops

end LogStore

end Aniani
