import Aniani.ForMathlib.Share
import Aniani.Store.Contents
import Aniani.Store.LogStore
import Aniani.Store.MetricStore
import Aniani.Store.TraceConsistency
import Aniani.Store.TraceIndex

/-!
# Eviction to a maximum

The background task evicts "oldest-first until under limit". The three stores do it by three units:
the log store takes entries, the metric store whole series, the trace store whole traces, and each
orders its units by their oldest element.

For the log store that order decides too little. The streams are served in the order of their first
entries, and the front of a stream is drained as far as the budget goes, however late the entries
there are: with two streams that overlap in time the newer half of one goes before the older half of
the other.

## Main definitions

* `LabelStore.EvictsOldest` — the oldest entries go, over all streams
* `LabelStore.taken`, `LabelStore.CutsApart` — where each stream is cut, and cuts in the order of time
* `LabelStore.Apart` — streams that do not overlap in time
* `MetricStore.EvictsSeries`, `TraceStore.EvictsTraces` — the oldest series go, the oldest traces go

## Main results

* `LabelStore.cutsApart_of_apart` — streams that do not overlap are cut in the order of time
* `LogStore.evictsOldest_iff` — when `evict_to_max` takes the oldest entries
* `MetricStore.evictsSeries`, `TraceStore.Invariant.evictsTraces` — whole series and whole traces,
  the oldest ones
-/

namespace Aniani

namespace LabelStore

variable {Rodeo Spur α : Type} [Timestamped α]

/-! ### Entries -/

omit [Timestamped α] in
/-- The number of entries in the streams. -/
def entryCount (s : LabelStore Rodeo Spur α) : ℕ := s.streams.total fun stream => stream.entries.length

/-- `s'` is `s` without its oldest entries, down to a maximum. -/
structure EvictsOldest (s s' : LabelStore Rodeo Spur α) (maxEntries : ℕ) : Prop where
  total : s'.total = min s.total maxEntries
  entryCount : s'.entryCount = min s.total maxEntries
  /-- No stream is new, and none changes its labels. -/
  shrinks : s.Shrinks s'
  suffix : ∀ id, s'.entriesOf id <:+ s.entriesOf id
  /-- What went, from whichever stream, is no later than what stayed. -/
  oldest : ∀ i j removed, removed ++ s'.entriesOf i = s.entriesOf i →
    ∀ a ∈ removed, ∀ b ∈ s'.entriesOf j, timestamp a ≤ timestamp b

/-- How many entries the front of a stream loses when the streams are served in the order of their
first entries. -/
def taken (it : IterOrder ℕ) (s : LabelStore Rodeo Spur α) (maxEntries : ℕ) (id : ℕ) : ℕ :=
  (s.evictionOrder it).share (fun id => (s.entriesOf id).length) (s.total - maxEntries) id

/-- The last entry to go of one stream is no later than the first to stay of another. -/
def CutsApart (it : IterOrder ℕ) (s : LabelStore Rodeo Spur α) (maxEntries : ℕ) : Prop :=
  ∀ i j, i ≠ j → ∀ a ∈ ((s.entriesOf i).take (s.taken it maxEntries i)).getLast?,
    ∀ b ∈ ((s.entriesOf j).drop (s.taken it maxEntries j)).head?, timestamp a ≤ timestamp b

omit [Timestamped α] in
theorem entriesOf_eq_nil {s : LabelStore Rodeo Spur α} {id : ℕ}
    (h : s.streams.lookup id = none) : s.entriesOf id = [] := by
  rw [entriesOf, h]
  rfl

omit [Timestamped α] in
theorem entriesOf_eq {s : LabelStore Rodeo Spur α} {id : ℕ} {stream : Stream Spur α}
    (h : s.streams.lookup id = some stream) : s.entriesOf id = stream.entries := by
  rw [entriesOf, h]
  rfl

theorem evictionOrder_perm (it : IterOrder ℕ) (s : LabelStore Rodeo Spur α) :
    (s.evictionOrder it).Perm (it.keys s.streams) :=
  List.sortByKey_perm s.oldestTimestamp (it.keys s.streams)

theorem mem_evictionOrder {it : IterOrder ℕ} {s : LabelStore Rodeo Spur α} {id : ℕ} :
    id ∈ s.evictionOrder it ↔ id ∈ s.streams :=
  (s.evictionOrder_perm it).mem_iff.trans IterOrder.mem_keys

theorem nodup_evictionOrder (it : IterOrder ℕ) (s : LabelStore Rodeo Spur α) :
    (s.evictionOrder it).Nodup :=
  (s.evictionOrder_perm it).nodup_iff.mpr (it.nodup_keys s.streams)

/-- The lengths of the streams, along a walk, add up. -/
theorem sum_length_evictionOrder (it : IterOrder ℕ) (s : LabelStore Rodeo Spur α) :
    ((s.evictionOrder it).map fun id => (s.entriesOf id).length).sum = s.entryCount := by
  have hlen : (fun id => (s.entriesOf id).length) =
      fun id => ((s.streams.lookup id).map fun stream => stream.entries.length).getD 0 := by
    funext id
    rw [entriesOf]
    cases s.streams.lookup id <;> rfl
  rw [hlen, ((s.evictionOrder_perm it).map _).sum_eq, IterOrder.sum_map_lookup, entryCount]

/-- **Cuts in the order of time cut off the oldest entries.** Where the vectors are sorted, the two
entries next to each cut stand for all the others. -/
theorem cutsApart_iff {s : LabelStore Rodeo Spur α} (h : s.Sorted) (it : IterOrder ℕ)
    (maxEntries : ℕ) :
    s.CutsApart it maxEntries ↔
      ∀ i j, ∀ a ∈ (s.entriesOf i).take (s.taken it maxEntries i),
        ∀ b ∈ (s.entriesOf j).drop (s.taken it maxEntries j), timestamp a ≤ timestamp b := by
  constructor
  · intro hcut i j a ha b hb
    by_cases hij : i = j
    · subst hij
      have hsplit := s.sortedBy_entriesOf h i
      rw [← List.take_append_drop (s.taken it maxEntries i) (s.entriesOf i)] at hsplit
      exact (List.pairwise_append.mp hsplit).2.2 a ha b hb
    · obtain ⟨front, last, hfront⟩ := List.eq_nil_or_concat'
        ((s.entriesOf i).take (s.taken it maxEntries i)) |>.resolve_left (List.ne_nil_of_mem ha)
      obtain ⟨first, back, hback⟩ := List.exists_cons_of_ne_nil (List.ne_nil_of_mem hb)
      have hsi := (s.sortedBy_entriesOf h i).sublist (List.take_sublist (s.taken it maxEntries i) _)
      have hsj := (s.sortedBy_entriesOf h j).sublist (List.drop_sublist (s.taken it maxEntries j) _)
      have hmid : timestamp last ≤ timestamp first :=
        hcut i j hij last (by simp [hfront]) first (by simp [hback])
      rw [hfront] at ha hsi
      rw [hback] at hb hsj
      have hal : timestamp a ≤ timestamp last := by
        rcases List.mem_append.mp ha with ha | ha
        · exact (List.pairwise_append.mp hsi).2.2 a ha last (by simp)
        · rw [List.mem_singleton.mp ha]
      have hfb : timestamp first ≤ timestamp b := by
        rcases List.mem_cons.mp hb with rfl | hb
        · exact le_rfl
        · exact (List.pairwise_cons.mp hsj).1 b hb
      exact hal.trans (hmid.trans hfb)
  · intro hall i j _ a ha b hb
    exact hall i j a (List.mem_of_getLast? ha) b (List.mem_of_head? hb)

/-- Two streams lie apart in time: one is over before the other begins. -/
def Apart (s : LabelStore Rodeo Spur α) (i j : ℕ) : Prop :=
  (∀ a ∈ s.entriesOf i, ∀ b ∈ s.entriesOf j, timestamp a < timestamp b) ∨
    ∀ a ∈ s.entriesOf i, ∀ b ∈ s.entriesOf j, timestamp b < timestamp a

/-- The eviction key of a stream with entries. -/
theorem oldestTimestamp_eq {s : LabelStore Rodeo Spur α} {id : ℕ} {a : α} {l : List α}
    (h : s.entriesOf id = a :: l) : s.oldestTimestamp id = timestamp a := by
  cases hst : s.streams.lookup id with
  | none => exact absurd ((entriesOf_eq_nil hst).symm.trans h) nofun
  | some stream =>
    rw [entriesOf_eq hst] at h
    rw [oldestTimestamp, hst, Option.bind_some, h]
    rfl

/-- **Only streams that overlap in time are cut out of its order.** Where each two of them lie
apart, the later one loses nothing before the earlier one is gone. -/
theorem cutsApart_of_apart {s : LabelStore Rodeo Spur α} (h : ∀ i j, i ≠ j → s.Apart i j)
    (it : IterOrder ℕ) (maxEntries : ℕ) : s.CutsApart it maxEntries := by
  intro i j hij a ha b hb
  have hai := List.mem_of_mem_take (List.mem_of_getLast? ha)
  have hbj := List.mem_of_mem_drop (List.mem_of_head? hb)
  rcases h i j hij with hbefore | hafter
  · exact (hbefore a hai b hbj).le
  -- `j` comes first in the order of eviction, so it is gone when `i` is cut
  obtain ⟨a₀, _, hi⟩ := List.exists_cons_of_ne_nil (List.ne_nil_of_mem hai)
  obtain ⟨b₀, _, hj⟩ := List.exists_cons_of_ne_nil (List.ne_nil_of_mem hbj)
  have hfirst : s.oldestTimestamp j < s.oldestTimestamp i := by
    rw [oldestTimestamp_eq hi, oldestTimestamp_eq hj]
    exact hafter a₀ (by simp [hi]) b₀ (by simp [hj])
  have hmem : j ∈ s.evictionOrder it := by
    refine mem_evictionOrder.mpr (Finmap.lookup_isSome.mp (Option.isSome_iff_ne_none.mpr ?_))
    exact fun hnone => List.ne_nil_of_mem hbj (entriesOf_eq_nil hnone)
  have htaken : 0 < s.taken it maxEntries i := by
    refine Nat.pos_of_ne_zero fun hzero => ?_
    rw [hzero, List.take_zero] at ha
    exact absurd ha nofun
  have hgone : s.taken it maxEntries j = (s.entriesOf j).length :=
    List.share_eq_need (List.sortedBy_sortByKey _ _) hmem hij.symm (not_le.mpr hfirst) htaken
  rw [hgone, List.drop_length] at hb
  exact absurd hb nofun

/-! ### Overwriting and removing a stream -/

omit [Timestamped α] in
theorem entriesOf_of_insert {s s' : LabelStore Rodeo Spur α} {id : ℕ} {stream : Stream Spur α}
    (h : s'.streams = s.streams.insert id stream) (i : ℕ) :
    s'.entriesOf i = if i = id then stream.entries else s.entriesOf i := by
  rw [entriesOf, h, Finmap.lookup_insert_eq_ite, entriesOf]
  split <;> rfl

omit [Timestamped α] in
theorem entryCount_of_insert {s s' : LabelStore Rodeo Spur α} {id : ℕ}
    {stream stream' : Stream Spur α} (hst : s.streams.lookup id = some stream)
    (h : s'.streams = s.streams.insert id stream') :
    s'.entryCount + stream.entries.length = s.entryCount + stream'.entries.length := by
  rw [entryCount, h]
  exact Finmap.total_insert (fun stream : Stream Spur α => stream.entries.length) hst

variable [LinearOrder Spur]

omit [Timestamped α] in
theorem entriesOf_removeStream (s : LabelStore Rodeo Spur α) (id i : ℕ) :
    (s.removeStream id).entriesOf i = if i = id then [] else s.entriesOf i := by
  rw [entriesOf, lookup_removeStream, entriesOf]
  split <;> rfl

omit [Timestamped α] in
theorem entryCount_removeStream {s : LabelStore Rodeo Spur α} {id : ℕ}
    (h : s.entriesOf id = []) : (s.removeStream id).entryCount = s.entryCount := by
  cases hst : s.streams.lookup id with
  | none => rw [removeStream, hst]
  | some stream =>
    have := total_streams_removeStream hst fun stream => stream.entries.length
    rw [entriesOf_eq hst] at h
    rw [h, List.length_nil, Nat.add_zero] at this
    exact this

end LabelStore

namespace LogStore

open LabelStore

variable {Rodeo Spur F64 : Type} [LinearOrder Spur]

/-- **One turn of the loop** takes from one stream what the budget and the stream allow. -/
theorem drainOldest_spec (acc : LabelStore Rodeo Spur (LogEntry Spur F64) × ℕ) (id : ℕ) :
    (∀ i, (drainOldest acc id).1.entriesOf i = if i = id then
        (acc.1.entriesOf i).drop (min acc.2 (acc.1.entriesOf i).length) else acc.1.entriesOf i) ∧
      (drainOldest acc id).1.entryCount + min acc.2 (acc.1.entriesOf id).length =
        acc.1.entryCount ∧
      (drainOldest acc id).1.total = acc.1.total - min acc.2 (acc.1.entriesOf id).length ∧
      (drainOldest acc id).2 = acc.2 - (acc.1.entriesOf id).length := by
  rw [drainOldest]
  split
  · next hzero => simp [hzero]
  split
  · next hnone =>
    have hnil := entriesOf_eq_nil hnone
    refine ⟨fun i => ?_, by simp [hnil], by simp [hnil], by simp [hnil]⟩
    by_cases hi : i = id <;> simp [hi, hnil]
  next stream hst =>
    dsimp only
    set drain := min acc.2 stream.entries.length with hdrain
    set drained : LabelStore Rodeo Spur (LogEntry Spur F64) := { acc.1 with
      streams := acc.1.streams.insert id { stream with entries := stream.entries.drop drain }
      total := acc.1.total - drain } with hdrained
    have hstreams : drained.streams =
      acc.1.streams.insert id { stream with entries := stream.entries.drop drain } := rfl
    have hentries := entriesOf_of_insert hstreams
    have hcount : drained.entryCount + drain = acc.1.entryCount := by
      have := entryCount_of_insert hst hstreams
      rw [List.length_drop] at this
      omega
    have hkeep : ∀ i, (if i = id then stream.entries.drop drain else acc.1.entriesOf i) =
        if i = id then (acc.1.entriesOf i).drop (min acc.2 (acc.1.entriesOf i).length)
        else acc.1.entriesOf i := by
      intro i
      by_cases hi : i = id
      · rw [if_pos hi, if_pos hi, hi, entriesOf_eq hst]
      · rw [if_neg hi, if_neg hi]
    have hleft : acc.2 - drain = acc.2 - stream.entries.length := by omega
    rw [entriesOf_eq hst]
    split
    · next hempty =>
      have hnil : drained.entriesOf id = [] := by
        rw [hentries, if_pos rfl, List.isEmpty_iff.mp hempty]
      refine ⟨fun i => ?_, ?_, removeStream_total drained id, hleft⟩
      · rw [entriesOf_removeStream, ← hkeep, ← hentries]
        split
        · next hi => rw [hi, hnil]
        · rfl
      · rw [entryCount_removeStream hnil, hcount]
    · exact ⟨fun i => (hentries i).trans (hkeep i), hcount, rfl, hleft⟩

/-- **The loop** serves the streams in turn: each loses its share of the budget. -/
theorem foldl_drainOldest_spec {ids : List ℕ} (hnodup : ids.Nodup)
    (acc : LabelStore Rodeo Spur (LogEntry Spur F64) × ℕ) :
    (∀ i, (ids.foldl drainOldest acc).1.entriesOf i = (acc.1.entriesOf i).drop
        (ids.share (fun id => (acc.1.entriesOf id).length) acc.2 i)) ∧
      (ids.foldl drainOldest acc).1.entryCount +
          min acc.2 (ids.map fun id => (acc.1.entriesOf id).length).sum = acc.1.entryCount ∧
      (ids.foldl drainOldest acc).1.total =
        acc.1.total - min acc.2 (ids.map fun id => (acc.1.entriesOf id).length).sum := by
  induction ids generalizing acc with
  | nil => simp [List.share]
  | cons id ids ih =>
    obtain ⟨hid, hnodup⟩ := List.nodup_cons.mp hnodup
    obtain ⟨hentries, hcount, htotal, hleft⟩ := drainOldest_spec acc id
    obtain ⟨ih1, ih2, ih3⟩ := ih hnodup (drainOldest acc id)
    -- the streams still to come are as they were
    have hsame : ∀ i ∈ ids, ((drainOldest acc id).1.entriesOf i).length =
        (acc.1.entriesOf i).length := by
      intro i hi
      have hne : i ≠ id := fun h => hid (h ▸ hi)
      rw [hentries, if_neg hne]
    have hsum : (ids.map fun i => ((drainOldest acc id).1.entriesOf i).length).sum =
        (ids.map fun i => (acc.1.entriesOf i).length).sum :=
      congrArg List.sum (List.map_congr_left hsame)
    rw [hsum, hleft] at ih2 ih3
    rw [List.foldl_cons, List.map_cons, List.sum_cons]
    refine ⟨fun i => ?_, by omega, by omega⟩
    rw [ih1, hentries, hleft, List.share_congr hsame, List.share]
    by_cases hi : i = id
    · rw [if_pos hi, if_pos hi, hi, List.share_of_notMem _ _ hid, List.drop_zero]
    · rw [if_neg hi, if_neg hi]

/-- **What `evict_to_max` leaves**: every stream loses its share of what is over the maximum. -/
theorem evictToMax_spec (it : IterOrder ℕ) (s : LogStore Rodeo Spur F64) (maxEntries : ℕ) :
    (∀ i, (s.evictToMax it maxEntries).entriesOf i =
        (s.entriesOf i).drop (s.taken it maxEntries i)) ∧
      (s.evictToMax it maxEntries).entryCount + min (s.total - maxEntries) s.entryCount =
        s.entryCount ∧
      (s.evictToMax it maxEntries).total = s.total - min (s.total - maxEntries) s.entryCount := by
  rw [evictToMax]
  split
  · next hle =>
    refine ⟨fun i => ?_, by simp [Nat.sub_eq_zero_of_le hle], by simp [Nat.sub_eq_zero_of_le hle]⟩
    rw [taken, Nat.sub_eq_zero_of_le hle, List.share_zero, List.drop_zero]
  · have hspec := foldl_drainOldest_spec (s.nodup_evictionOrder it)
      (s.toLabelStore, s.total - maxEntries)
    rw [sum_length_evictionOrder it s.toLabelStore] at hspec
    exact hspec

variable [Interner Rodeo Spur]

/-- **`evict_to_max` takes the oldest entries exactly where it cuts the streams in the order of
time**, as it does where none of them overlap, and as long as the counter of a reachable store is
right, which it is while there are ids left. -/
theorem evictsOldest_iff (ops : List (LogOp Spur F64)) (it : IterOrder ℕ) (maxEntries : ℕ) :
    let s := Run.exec apply (new : LogStore Rodeo Spur F64) ops
    EvictsOldest s.toLabelStore (s.evictToMax it maxEntries).toLabelStore maxEntries ↔
      s.total = s.entryCount ∧ s.CutsApart it maxEntries := by
  intro s
  obtain ⟨hentries, hcount, htotal⟩ := evictToMax_spec it s maxEntries
  rw [cutsApart_iff (sorted_exec ops)]
  constructor
  · intro h
    have := h.total
    have := h.entryCount
    refine ⟨by omega, fun i j a ha b hb => ?_⟩
    rw [← hentries] at hb
    refine h.oldest i j ((s.entriesOf i).take (s.taken it maxEntries i)) ?_ a ha b hb
    rw [hentries, List.take_append_drop]
  · rintro ⟨hright, hcut⟩
    refine ⟨by omega, by omega, ?_, fun id => hentries id ▸ List.drop_suffix _ _, ?_⟩
    · show LabelStore.Shrinks _ (s.evictToMax it maxEntries).toLabelStore
      rw [evictToMax]
      split
      · exact Shrinks.refl _
      · exact shrinks_foldl_drainOldest (s.toLabelStore, _) _
    · intro i j removed hremoved a ha b hb
      rw [hentries] at hremoved hb
      have hsplit : removed = (s.entriesOf i).take (s.taken it maxEntries i) :=
        List.append_cancel_right (hremoved.trans (List.take_append_drop _ _).symm)
      exact hcut i j a (hsplit ▸ ha) b hb

/-- Two streams that overlap: with entries at 1 and 10 in the one and at 2 and 3 in the other,
evicting down to two entries takes the one at 10 and leaves those at 2 and 3. -/
theorem not_evictsOldest_interleaved :
    let s := Run.exec apply (new : LogStore VecRodeo ℕ ℤ)
      [.ingestStream [("service", "a")] [entryOf 1 none, entryOf 10 none],
        .ingestStream [("service", "b")] [entryOf 2 none, entryOf 3 none]]
    ¬ EvictsOldest s.toLabelStore (s.evictToMax (IterOrder.ascending ℕ) 2).toLabelStore 2 := by
  intro s h
  have hkept : (s.evictToMax (IterOrder.ascending ℕ) 2).entriesOf 1 =
    [entryOf 2 none, entryOf 3 none] := rfl
  have hle := h.oldest 0 1 [entryOf 1 none, entryOf 10 none] rfl (entryOf 10 none) (by simp)
    (entryOf 2 none) (hkept ▸ List.mem_cons_self)
  exact absurd hle (by decide)

end LogStore

/-! ### Series -/

namespace MetricStore

open LabelStore

variable {Rodeo Spur F64 : Type} [LinearOrder Spur] [Interner Rodeo Spur]

/-- `s'` is `s` without its oldest series, down to a maximum. -/
structure EvictsSeries (s s' : MetricStore Rodeo Spur F64) (maxSeries : ℕ) : Prop where
  count : s'.seriesCount = min s.seriesCount maxSeries
  /-- What stayed is as it was. -/
  kept : ∀ id series, s'.streams.lookup id = some series → s.streams.lookup id = some series
  oldest : ∀ i ∈ s.streams, i ∉ s'.streams → ∀ j ∈ s'.streams, ∀ a ∈ (s.entriesOf i).head?,
    ∀ b ∈ (s'.entriesOf j).head?, a.timestampMs ≤ b.timestampMs
  /-- A series without samples goes after those that have one. -/
  empty : ∀ i ∈ s.streams, i ∉ s'.streams → s.entriesOf i = [] → ∀ j ∈ s'.streams,
    ∀ b ∈ (s'.entriesOf j).head?, i64Max ≤ b.timestampMs

omit [LinearOrder Spur] [Interner Rodeo Spur] in
theorem oldestTimestamp_eq (s : MetricStore Rodeo Spur F64) (id : ℕ) :
    s.oldestTimestamp id = ((s.entriesOf id).head?).elim i64Max Sample.timestampMs := by
  rw [oldestTimestamp, entriesOf]
  cases s.streams.lookup id <;> rfl

theorem lookup_evictToMax (it : IterOrder ℕ) (s : MetricStore Rodeo Spur F64) (maxSeries i : ℕ) :
    (s.evictToMax it maxSeries).streams.lookup i =
      if i ∈ s.evicted it maxSeries then none else s.streams.lookup i := by
  rw [toLabelStore_evictToMax]
  exact lookup_foldl_dropStream s.toLabelStore _ i

theorem mem_evictToMax {it : IterOrder ℕ} {s : MetricStore Rodeo Spur F64} {maxSeries i : ℕ} :
    i ∈ (s.evictToMax it maxSeries).streams ↔ i ∈ s.streams ∧ i ∉ s.evicted it maxSeries := by
  simp only [Finmap.mem_iff, lookup_evictToMax]
  by_cases hi : i ∈ s.evicted it maxSeries <;> simp [hi]

omit [LinearOrder Spur] [Interner Rodeo Spur] in
theorem card_evicted (it : IterOrder ℕ) (s : MetricStore Rodeo Spur F64) (maxSeries : ℕ) :
    (s.evicted it maxSeries).toFinset.card = s.seriesCount - maxSeries := by
  have hlength : (s.evictionOrder it).length = s.seriesCount := by
    rw [seriesCount, ← List.toFinset_card_of_nodup (s.nodup_evictionOrder it)]
    congr 1
    ext i
    rw [List.mem_toFinset, mem_evictionOrder, Finmap.mem_keys]
  have hnodup : (s.evicted it maxSeries).Nodup :=
    (s.nodup_evictionOrder it).sublist (List.take_sublist _ _)
  rw [List.toFinset_card_of_nodup hnodup, evicted, List.length_take, hlength]
  omega

theorem seriesCount_evictToMax (it : IterOrder ℕ) (s : MetricStore Rodeo Spur F64)
    (maxSeries : ℕ) :
    (s.evictToMax it maxSeries).seriesCount = min s.seriesCount maxSeries := by
  have hkeys : (s.evictToMax it maxSeries).streams.keys =
      s.streams.keys \ (s.evicted it maxSeries).toFinset := by
    ext i
    rw [Finmap.mem_keys, mem_evictToMax, Finset.mem_sdiff, Finmap.mem_keys, List.mem_toFinset]
  have hsub : (s.evicted it maxSeries).toFinset ⊆ s.streams.keys := by
    intro i hi
    rw [Finmap.mem_keys]
    exact mem_evictionOrder.mp (List.mem_of_mem_take (List.mem_toFinset.mp hi))
  have hcount : s.streams.keys.card = s.seriesCount := rfl
  rw [seriesCount, hkeys, Finset.card_sdiff_of_subset hsub, card_evicted, hcount]
  omega

/-- What goes comes before what stays in the order of the first samples. -/
theorem oldestTimestamp_le {it : IterOrder ℕ} {s : MetricStore Rodeo Spur F64} {maxSeries i j : ℕ}
    (hi : i ∈ s.streams) (hgone : i ∉ (s.evictToMax it maxSeries).streams)
    (hj : j ∈ (s.evictToMax it maxSeries).streams) :
    s.oldestTimestamp i ≤ s.oldestTimestamp j := by
  obtain ⟨hj, hkept⟩ := mem_evictToMax.mp hj
  have hsplit := List.take_append_drop (s.seriesCount - maxSeries) (s.evictionOrder it)
  have hsorted : (s.evictionOrder it).SortedBy s.oldestTimestamp := List.sortedBy_sortByKey _ _
  have hitake : i ∈ s.evicted it maxSeries := by
    by_contra hno
    exact hgone (mem_evictToMax.mpr ⟨hi, hno⟩)
  have hjdrop : j ∈ (s.evictionOrder it).drop (s.seriesCount - maxSeries) := by
    have hjall : j ∈ s.evictionOrder it := mem_evictionOrder.mpr hj
    rw [← hsplit] at hjall
    exact (List.mem_append.mp hjall).resolve_left hkept
  rw [← hsplit] at hsorted
  exact (List.pairwise_append.mp hsorted).2.2 i hitake j hjdrop

/-- **`evict_to_max` of the metric store takes the oldest series**, by their first samples, and as
many as there are too many. -/
theorem evictsSeries (it : IterOrder ℕ) (s : MetricStore Rodeo Spur F64) (maxSeries : ℕ) :
    s.EvictsSeries (s.evictToMax it maxSeries) maxSeries := by
  have hsame : ∀ j ∈ (s.evictToMax it maxSeries).streams,
      (s.evictToMax it maxSeries).entriesOf j = s.entriesOf j := by
    intro j hj
    rw [entriesOf, lookup_evictToMax, if_neg (mem_evictToMax.mp hj).2, entriesOf]
  refine ⟨seriesCount_evictToMax it s maxSeries, fun id series hst => ?_,
    fun i hi hgone j hj a ha b hb => ?_, fun i hi hgone hempty j hj b hb => ?_⟩
  · rw [lookup_evictToMax] at hst
    split at hst
    · exact absurd hst (by simp)
    · exact hst
  · have hle := oldestTimestamp_le hi hgone hj
    rwa [oldestTimestamp_eq, oldestTimestamp_eq, ha, ← hsame j hj, hb] at hle
  · have hle := oldestTimestamp_le hi hgone hj
    rwa [oldestTimestamp_eq, oldestTimestamp_eq, hempty, ← hsame j hj, hb] at hle

end MetricStore

/-! ### Traces -/

namespace TraceStore

variable {Rodeo Spur F64 : Type} [LinearOrder Spur]

/-- `s'` is `s` without the traces of `removed`, which are the oldest ones and no more than it takes
to be within the maximum. -/
structure EvictsTraces (s s' : TraceStore Rodeo Spur F64) (maxSpans : ℕ) (removed : List TraceId) :
    Prop where
  bound : s'.totalSpans ≤ maxSpans
  /-- The counter is the number of spans held. -/
  total : s'.totalSpans = s'.traces.total List.length
  stored : ∀ t ∈ removed, t ∈ s.traces
  /-- A trace goes whole or stays as it was. -/
  whole : ∀ t, s'.traces.lookup t = if t ∈ removed then none else s.traces.lookup t
  /-- With the last trace back, there would be too many spans. -/
  needed : ∀ t ∈ removed.getLast?, maxSpans < s'.totalSpans + (spansOf s.traces t).length
  oldest : ∀ t ∈ removed, ∀ t' ∈ s'.traces, ∀ b ∈ spansOf s'.traces t',
    ∃ a ∈ spansOf s.traces t, a.startTimeNs ≤ b.startTimeNs

/-- The order `evict_to_max` takes the traces in. -/
def evictionOrder (it : IterOrder TraceId) (s : TraceStore Rodeo Spur F64) : List TraceId :=
  (it.keys s.traces).sortByKey s.earliestStart

theorem evictTrace_of_le {maxSpans : ℕ} {s : TraceStore Rodeo Spur F64}
    (h : s.totalSpans ≤ maxSpans) (t : TraceId) : s.evictTrace maxSpans t = s := if_pos h

theorem foldl_evictTrace_of_le {maxSpans : ℕ} {s : TraceStore Rodeo Spur F64}
    (h : s.totalSpans ≤ maxSpans) (ts : List TraceId) :
    ts.foldl (TraceStore.evictTrace maxSpans) s = s := by
  induction ts with
  | nil => rfl
  | cons t ts ih => rw [List.foldl_cons, evictTrace_of_le h, ih]

/-- One turn of the loop, where there are too many spans. -/
theorem evictTrace_of_lt {maxSpans : ℕ} {s : TraceStore Rodeo Spur F64}
    (h : maxSpans < s.totalSpans) {t : TraceId} {spans : List (Span Spur F64)}
    (hst : s.traces.lookup t = some spans) :
    (s.evictTrace maxSpans t).traces = s.traces.erase t ∧
      (s.evictTrace maxSpans t).totalSpans = s.totalSpans - spans.length := by
  rw [TraceStore.evictTrace, if_neg (not_le.mpr h), hst]
  exact foldl_unindexSpan_frame t spans _

/-- **The loop stops at the right trace**: it takes a prefix of the order, the last trace of which
was needed, and it only gets to the end if it has to. -/
theorem foldl_evictTrace_spec (maxSpans : ℕ) {ts : List TraceId} (hnodup : ts.Nodup)
    {s : TraceStore Rodeo Spur F64} (hstored : ∀ t ∈ ts, t ∈ s.traces)
    (htotal : s.totalSpans = s.traces.total List.length) :
    let s' := ts.foldl (TraceStore.evictTrace maxSpans) s
    ∃ removed rest, ts = removed ++ rest ∧
      (∀ t, s'.traces.lookup t = if t ∈ removed then none else s.traces.lookup t) ∧
      s'.totalSpans = s'.traces.total List.length ∧
      (∀ t ∈ removed.getLast?, maxSpans < s'.totalSpans + (spansOf s.traces t).length) ∧
      (s'.totalSpans ≤ maxSpans ∨ rest = []) := by
  induction ts generalizing s with
  | nil => exact ⟨[], [], rfl, by simp, htotal, by simp, .inr rfl⟩
  | cons t ts ih =>
    intro s'
    rcases le_or_gt s.totalSpans maxSpans with hle | hlt
    · have hs' : s' = s := foldl_evictTrace_of_le hle _
      rw [hs']
      exact ⟨[], t :: ts, rfl, by simp, htotal, by simp, .inl hle⟩
    obtain ⟨ht, hnodup⟩ := List.nodup_cons.mp hnodup
    obtain ⟨spans, hst⟩ := Finmap.mem_iff.mp (hstored t List.mem_cons_self)
    obtain ⟨htraces, hleft⟩ := evictTrace_of_lt hlt hst
    have herase := Finmap.total_erase List.length hst
    have hne : ∀ t' ∈ ts, t' ≠ t := fun t' ht' heq => ht (heq ▸ ht')
    have hstored' : ∀ t' ∈ ts, t' ∈ (s.evictTrace maxSpans t).traces := by
      intro t' ht'
      rw [htraces, Finmap.mem_iff, Finmap.lookup_erase_eq_ite, if_neg (hne t' ht')]
      exact Finmap.mem_iff.mp (hstored t' (List.mem_cons_of_mem _ ht'))
    have htotal' : (s.evictTrace maxSpans t).totalSpans =
        (s.evictTrace maxSpans t).traces.total List.length := by
      rw [htraces, hleft]
      omega
    obtain ⟨removed, rest, hsplit, hlook, hcounted, hneeded, hstop⟩ := ih hnodup hstored' htotal'
    change ∀ t', s'.traces.lookup t' = _ at hlook
    change s'.totalSpans = s'.traces.total List.length at hcounted
    refine ⟨t :: removed, rest, by rw [hsplit, List.cons_append], fun t' => ?_, hcounted,
      fun last hlast => ?_, hstop⟩
    · rw [hlook, htraces, Finmap.lookup_erase_eq_ite]
      by_cases ht' : t' = t <;> simp [ht']
    · cases removed with
      | nil =>
        -- nothing went after this trace
        have hsame : s'.traces = (s.evictTrace maxSpans t).traces := by
          refine Finmap.ext_lookup fun t' => ?_
          rw [hlook, if_neg List.not_mem_nil]
        have hlast : some t = some last := hlast
        obtain rfl := Option.some.inj hlast
        have hspans : (spansOf s.traces t).length = spans.length := by rw [spansOf, hst]; rfl
        rw [hcounted, hsame, ← htotal', hleft, hspans]
        omega
      | cons t₂ removed =>
        rw [List.getLast?_cons_cons] at hlast
        have hin : last ∈ ts := hsplit ▸ List.mem_append_left _ (List.mem_of_getLast? hlast)
        have := hneeded last hlast
        rwa [htraces, spansOf_erase, if_neg (hne last hin)] at this

omit [LinearOrder Spur] in
theorem earliestStart_le {s : TraceStore Rodeo Spur F64} {t : TraceId} {span : Span Spur F64}
    (h : span ∈ spansOf s.traces t) : s.earliestStart t ≤ span.startTimeNs := by
  have hmem : span.startTimeNs ∈ (spansOf s.traces t).map Span.startTimeNs :=
    List.mem_map_of_mem h
  show (((spansOf s.traces t).map Span.startTimeNs).min?).getD i64Max ≤ span.startTimeNs
  cases hmin : ((spansOf s.traces t).map Span.startTimeNs).min? with
  | none => rw [List.min?_eq_none_iff.mp hmin] at hmem; exact absurd hmem List.not_mem_nil
  | some m => exact (List.min?_eq_some_iff.mp hmin).2 _ hmem

omit [LinearOrder Spur] in
theorem exists_earliestStart {s : TraceStore Rodeo Spur F64} {t : TraceId}
    (h : spansOf s.traces t ≠ []) :
    ∃ span ∈ spansOf s.traces t, span.startTimeNs = s.earliestStart t := by
  cases hmin : ((spansOf s.traces t).map Span.startTimeNs).min? with
  | none => exact absurd (List.map_eq_nil_iff.mp (List.min?_eq_none_iff.mp hmin)) h
  | some m =>
    obtain ⟨span, hspan, hm⟩ := List.mem_map.mp (List.min?_eq_some_iff.mp hmin).1
    have hstart : s.earliestStart t = m := by
      show (((spansOf s.traces t).map Span.startTimeNs).min?).getD i64Max = m
      rw [hmin]
      rfl
    exact ⟨span, hspan, hm.trans hstart.symm⟩

variable [Interner Rodeo Spur]

/-- **`evict_to_max` of the trace store takes the oldest traces**, whole, and none in excess. -/
theorem Invariant.evictsTraces {s : TraceStore Rodeo Spur F64} (h : s.Invariant)
    (it : IterOrder TraceId) (maxSpans : ℕ) :
    ∃ removed, removed <+: s.evictionOrder it ∧
      s.EvictsTraces (s.evictToMax it maxSpans) maxSpans removed := by
  rw [TraceStore.evictToMax]
  split
  · next hle => exact ⟨[], List.nil_prefix, hle, h.total, by simp, by simp, by simp, by simp⟩
  have hperm : (s.evictionOrder it).Perm (it.keys s.traces) := List.sortByKey_perm _ _
  have hstored : ∀ t, t ∈ s.evictionOrder it ↔ t ∈ s.traces := fun t =>
    hperm.mem_iff.trans IterOrder.mem_keys
  have hnodup : (s.evictionOrder it).Nodup := hperm.nodup_iff.mpr (it.nodup_keys s.traces)
  have hsorted : (s.evictionOrder it).SortedBy s.earliestStart := List.sortedBy_sortByKey _ _
  have hspec := foldl_evictTrace_spec maxSpans hnodup (fun t ht => (hstored t).mp ht) h.total
  show ∃ removed, removed <+: s.evictionOrder it ∧ s.EvictsTraces (TraceStore.rebuildAttrIndex it
    (sweepIndexes ((s.evictionOrder it).foldl (TraceStore.evictTrace maxSpans) s))) maxSpans removed
  generalize (s.evictionOrder it).foldl (TraceStore.evictTrace maxSpans) s = s' at hspec ⊢
  obtain ⟨removed, rest, hsplit, hlook, htotal, hneeded, hstop⟩ := hspec
  have hrest : ∀ t, t ∈ s'.traces → t ∈ rest ∧ s'.traces.lookup t = s.traces.lookup t := by
    intro t ht
    obtain ⟨spans, hst⟩ := Finmap.mem_iff.mp ht
    have hlookt := hlook t
    split at hlookt
    · exact absurd (hst.symm.trans hlookt) (by simp)
    · next hno =>
      have hin : t ∈ s.traces := Finmap.mem_of_lookup_eq_some (hlookt ▸ hst)
      rw [← hstored, hsplit] at hin
      exact ⟨(List.mem_append.mp hin).resolve_left hno, hlookt⟩
  refine ⟨removed, ⟨rest, hsplit.symm⟩, ?_, htotal, fun t ht => ?_, hlook, hneeded,
    fun t ht t' ht' b hb => ?_⟩
  · refine hstop.elim id fun hnil => ?_
    -- every trace went
    have hempty : s'.traces = ∅ := by
      refine Finmap.ext_lookup fun t => ?_
      rw [Finmap.lookup_empty, Finmap.lookup_eq_none]
      exact fun ht => List.not_mem_nil (hnil ▸ (hrest t ht).1)
    show s'.totalSpans ≤ maxSpans
    rw [htotal, hempty]
    exact Nat.zero_le _
  · rw [← hstored, hsplit]
    exact List.mem_append_left _ ht
  · obtain ⟨hin, hsame⟩ := hrest t' ht'
    have hst : t ∈ s.traces := by
      rw [← hstored, hsplit]
      exact List.mem_append_left _ ht
    obtain ⟨spans, hspans⟩ := Finmap.mem_iff.mp hst
    have hne : spansOf s.traces t ≠ [] := by
      rw [spansOf, hspans]
      exact h.nonempty hspans
    obtain ⟨a, ha, hstart⟩ := exists_earliestStart hne
    have hb' : b ∈ spansOf s.traces t' := by
      rw [spansOf, ← hsame]
      exact hb
    rw [hsplit] at hsorted
    have hle := (List.pairwise_append.mp hsorted).2.2 t ht t' hin
    exact ⟨a, ha, hstart.trans_le (hle.trans (earliestStart_le hb'))⟩

end TraceStore

/-- **Eviction to a maximum in the trace store and the metric store**: after any run, whole traces
and whole series go, the oldest ones, and as many as are needed. -/
theorem evictsTraces_evictsSeries_exec {Rodeo Spur F64 : Type} [LinearOrder Spur]
    [Interner Rodeo Spur] (traceOps : List (TraceOp Spur F64)) (metricOps : List (MetricOp F64))
    (traceIt : IterOrder TraceId) (metricIt : IterOrder ℕ) (maxSpans maxSeries : ℕ) :
    let traces := Run.exec TraceStore.apply (TraceStore.new : TraceStore Rodeo Spur F64) traceOps
    let metrics := Run.exec MetricStore.apply (MetricStore.new : MetricStore Rodeo Spur F64)
      metricOps
    (∃ removed, removed <+: traces.evictionOrder traceIt ∧
      traces.EvictsTraces (traces.evictToMax traceIt maxSpans) maxSpans removed) ∧
    metrics.EvictsSeries (metrics.evictToMax metricIt maxSeries) maxSeries :=
  ⟨(TraceStore.invariant_exec traceOps).evictsTraces traceIt maxSpans,
    MetricStore.evictsSeries metricIt _ maxSeries⟩

end Aniani
