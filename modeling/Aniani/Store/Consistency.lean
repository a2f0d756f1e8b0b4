import Aniani.Store.LabelIndex

/-!
# The invariant of a label store

Seven pieces of state describe one family of streams, and every operation patches them one by one.
`LabelStore.Indexed` says how six of them fit together: the two label indexes represent the
relation "this live stream carries this pair", the identity map is the inverse of the labels of the
live streams, ids are below the next one, every vector is sorted, and every label key is known to
the interner. `LabelStore.Invariant` adds the seventh, the total.

Each operation gets one lemma. Changing the vector of one stream and taking one stream out are the
two moves every removal is made of.

## Main definitions

* `LabelStore.Carries` — a live stream carries a label pair
* `LabelStore.Indexed`, `LabelStore.Invariant`
* `LabelStore.Consistent` — the invariant in terms of the maps themselves
* `LabelStore.Shrinks` — what a removal does to the streams
* `LabelStore.StreamInvariant` — what is so of a stream from its creation on

## Main results

* `Invariant.ingest`, `Invariant.evictBefore`, `Invariant.clearService`, ...
* `lookup_evictBefore`, `lookup_foldl_dropStream` — what each removal leaves
-/

namespace Aniani

open Interner

namespace LabelStore

section Frames

variable {Rodeo Spur α : Type} [LinearOrder Spur]

/-! ### What a removal leaves -/

theorem lookup_removeStream (s : LabelStore Rodeo Spur α) (id i : ℕ) :
    (s.removeStream id).streams.lookup i = if i = id then none else s.streams.lookup i := by
  rw [removeStream]
  split
  · next hnone =>
    split
    · next hi => rw [hi, hnone]
    · rfl
  · exact Finmap.lookup_erase_eq_ite _ _ _

@[simp] theorem removeStream_interner (s : LabelStore Rodeo Spur α) (id : ℕ) :
    (s.removeStream id).interner = s.interner := by
  rw [removeStream]
  split <;> rfl

@[simp] theorem removeStream_nextStreamId (s : LabelStore Rodeo Spur α) (id : ℕ) :
    (s.removeStream id).nextStreamId = s.nextStreamId := by
  rw [removeStream]
  split <;> rfl

theorem removeStream_total (s : LabelStore Rodeo Spur α) (id : ℕ) :
    (s.removeStream id).total = s.total := by
  rw [removeStream]
  split <;> rfl

theorem total_streams_removeStream {s : LabelStore Rodeo Spur α} {id : ℕ} {stream : Stream Spur α}
    (hid : s.streams.lookup id = some stream) (f : Stream Spur α → ℕ) :
    (s.removeStream id).streams.total f + f stream = s.streams.total f := by
  rw [removeStream, hid]
  exact Finmap.total_erase f hid

theorem lookup_foldl_removeStream (s : LabelStore Rodeo Spur α) (ids : List ℕ) (i : ℕ) :
    (ids.foldl removeStream s).streams.lookup i =
      if i ∈ ids then none else s.streams.lookup i := by
  induction ids generalizing s with
  | nil => simp
  | cons id ids ih =>
    rw [List.foldl_cons, ih, lookup_removeStream]
    by_cases hi : i = id <;> simp [hi]

theorem lookup_dropStream (s : LabelStore Rodeo Spur α) (id i : ℕ) :
    (s.dropStream id).streams.lookup i = if i = id then none else s.streams.lookup i := by
  rw [← lookup_removeStream, dropStream]
  split
  · next hnone => rw [removeStream, hnone]
  · rfl

@[simp] theorem dropStream_interner (s : LabelStore Rodeo Spur α) (id : ℕ) :
    (s.dropStream id).interner = s.interner := by
  rw [dropStream]
  split
  · rfl
  · exact removeStream_interner s id

@[simp] theorem dropStream_nextStreamId (s : LabelStore Rodeo Spur α) (id : ℕ) :
    (s.dropStream id).nextStreamId = s.nextStreamId := by
  rw [dropStream]
  split
  · rfl
  · exact removeStream_nextStreamId s id

/-- **Dropping a list of streams** leaves the others as they are. -/
theorem lookup_foldl_dropStream (s : LabelStore Rodeo Spur α) (ids : List ℕ) (i : ℕ) :
    (ids.foldl dropStream s).streams.lookup i =
      if i ∈ ids then none else s.streams.lookup i := by
  induction ids generalizing s with
  | nil => simp
  | cons id ids ih =>
    rw [List.foldl_cons, ih, lookup_dropStream]
    by_cases hi : i = id <;> simp [hi]

@[simp] theorem foldl_dropStream_interner (s : LabelStore Rodeo Spur α) (ids : List ℕ) :
    (ids.foldl dropStream s).interner = s.interner := by
  induction ids generalizing s with
  | nil => rfl
  | cons id ids ih => rw [List.foldl_cons, ih, dropStream_interner]

@[simp] theorem foldl_dropStream_nextStreamId (s : LabelStore Rodeo Spur α) (ids : List ℕ) :
    (ids.foldl dropStream s).nextStreamId = s.nextStreamId := by
  induction ids generalizing s with
  | nil => rfl
  | cons id ids ih => rw [List.foldl_cons, ih, dropStream_nextStreamId]

end Frames

variable {Rodeo Spur α : Type} [LinearOrder Spur] [Interner Rodeo Spur] [Timestamped α]

/-! ### The invariant -/

/-- A live stream carries the pair. -/
def Carries (s : LabelStore Rodeo Spur α) (pair : Spur × Spur) (id : ℕ) : Prop :=
  ∃ stream, s.streams.lookup id = some stream ∧ pair ∈ stream.labels

/-- The indexes fit the live streams. -/
structure Indexed (s : LabelStore Rodeo Spur α) : Prop where
  labelIndex : InvertedIndex.Represents s.labelIndex s.Carries
  labelValues : InvertedIndex.Represents s.labelValues fun k v => ∃ id, s.Carries (k, v) id
  /-- The identity map is the inverse of the labels. -/
  streamIds : ∀ labels id, s.streamIds.lookup labels = some id ↔
    ∃ stream, s.streams.lookup id = some stream ∧ stream.labels = labels
  /-- Ids are below the next one. -/
  next : ∀ {id stream}, s.streams.lookup id = some stream → id < s.nextStreamId
  sorted : ∀ {id stream}, s.streams.lookup id = some stream → stream.entries.SortedBy timestamp
  interned : ∀ {id stream}, s.streams.lookup id = some stream →
    ∀ pair ∈ stream.labels, Valid s.interner pair.1 ∧ Valid s.interner pair.2

/-- The indexes and the total fit the live streams. -/
structure Invariant (s : LabelStore Rodeo Spur α) : Prop extends Indexed s where
  total : s.total = s.streams.total fun stream => stream.entries.length

theorem invariant_new : Invariant (new : LabelStore Rodeo Spur α) where
  labelIndex := InvertedIndex.represents_empty.congr fun _ _ => by simp [Carries, new]
  labelValues := InvertedIndex.represents_empty.congr fun _ _ => by simp [Carries, new]
  streamIds _ _ := by simp [new]
  next h := by simp [new] at h
  sorted h := by simp [new] at h
  interned h := by simp [new] at h
  total := rfl

/-! ### Reading the identity map -/

theorem Indexed.eq_of_labels_eq {s : LabelStore Rodeo Spur α} (h : s.Indexed) {i j : ℕ}
    {a b : Stream Spur α} (ha : s.streams.lookup i = some a) (hb : s.streams.lookup j = some b)
    (hab : a.labels = b.labels) : i = j := by
  have hi := (h.streamIds a.labels i).mpr ⟨a, ha, rfl⟩
  have hj := (h.streamIds a.labels j).mpr ⟨b, hb, hab.symm⟩
  exact Option.some.inj (hi.symm.trans hj)

/-! ### Changing one vector -/

/-- **Writing to the vector of one stream** disturbs no index, as long as the vector stays
sorted. -/
theorem Indexed.setEntries {s : LabelStore Rodeo Spur α} (h : s.Indexed) {id : ℕ}
    {stream : Stream Spur α} (hid : s.streams.lookup id = some stream) {entries : List α}
    (hsorted : entries.SortedBy timestamp) (total : ℕ) :
    Indexed { s with
      streams := s.streams.insert id { stream with entries := entries }
      total := total } := by
  have hcarries : ∀ pair i, s.Carries pair i ↔ Carries { s with
      streams := s.streams.insert id { stream with entries := entries }
      total := total } pair i := by
    intro pair i
    simp only [Carries, Finmap.lookup_insert_eq_ite]
    by_cases hi : i = id
    · subst hi; simp [hid]
    · simp [hi]
  -- a stream of the new map has the labels of a stream of the old one
  have hback : ∀ {i st}, (s.streams.insert id { stream with entries := entries }).lookup i =
      some st → ∃ st', s.streams.lookup i = some st' ∧ st'.labels = st.labels := by
    intro i st hst
    rw [Finmap.lookup_insert_eq_ite] at hst
    split at hst
    · next hi =>
      obtain rfl := Option.some.inj hst
      exact ⟨stream, hi ▸ hid, rfl⟩
    · exact ⟨st, hst, rfl⟩
  refine ⟨h.labelIndex.congr hcarries, h.labelValues.congr fun k v =>
    exists_congr fun i => hcarries (k, v) i, ?_, ?_, ?_, ?_⟩
  · intro labels i
    rw [h.streamIds]
    simp only [Finmap.lookup_insert_eq_ite]
    by_cases hi : i = id
    · subst hi; simp [hid]
    · simp [hi]
  · intro i st hst
    obtain ⟨st', hst', -⟩ := hback hst
    exact h.next hst'
  · intro i st hst
    rw [Finmap.lookup_insert_eq_ite] at hst
    split at hst
    · obtain rfl := Option.some.inj hst
      exact hsorted
    · exact h.sorted hst
  · intro i st hst
    obtain ⟨st', hst', hlabels⟩ := hback hst
    rw [← hlabels]
    exact h.interned hst'

theorem Invariant.setEntries {s : LabelStore Rodeo Spur α} (h : s.Invariant) {id : ℕ}
    {stream : Stream Spur α} (hid : s.streams.lookup id = some stream) {entries : List α}
    (hsorted : entries.SortedBy timestamp) {total : ℕ}
    (htotal : total + stream.entries.length = s.total + entries.length) :
    Invariant { s with
      streams := s.streams.insert id { stream with entries := entries }
      total := total } where
  toIndexed := h.toIndexed.setEntries hid hsorted total
  total := by
    have := Finmap.total_insert (fun st : Stream Spur α => st.entries.length) hid
      (c := { stream with entries := entries })
    have := h.total
    simp only at *
    omega

/-! ### Ingest -/

/-- Recording the values of a label set that a live stream already carries says nothing new. -/
theorem Invariant.trackLabels {s : LabelStore Rodeo Spur α} (h : s.Invariant)
    {labels : List (String × String)} {id : ℕ}
    (hid : s.streamIds.lookup (internLabelPairs s.interner labels).1 = some id) :
    (s.trackLabels labels).Invariant := by
  obtain ⟨stream, hst, hlabels⟩ := (h.streamIds _ id).mp hid
  refine ⟨⟨h.labelIndex, (h.labelValues.addAll _).congr fun k v => ?_, h.streamIds, h.next,
    h.sorted, fun hst' pair hp => ?_⟩, h.total⟩
  · refine or_iff_right_of_imp fun hkv => ⟨id, stream, hst, ?_⟩
    rwa [hlabels]
  · have hext := extends_internLabelPairs s.interner labels
    exact ⟨(h.interned hst' pair hp).1.mono hext, (h.interned hst' pair hp).2.mono hext⟩

theorem Indexed.lookup_nextStreamId {s : LabelStore Rodeo Spur α} (h : s.Indexed) :
    s.streams.lookup s.nextStreamId = none := by
  cases hst : s.streams.lookup s.nextStreamId with
  | none => rfl
  | some stream => exact absurd (h.next hst) (lt_irrefl _)

/-- **A label set seen for the first time** gets a stream and enters every index. -/
theorem Invariant.createStream {s : LabelStore Rodeo Spur α} (h : s.Invariant)
    {labels : List (String × String)} (hroom : s.nextStreamId < u64Max)
    (hnone : s.streamIds.lookup (internLabelPairs s.interner labels).1 = none) :
    ((s.trackLabels labels).createStream (internLabelPairs s.interner labels).1).Invariant := by
  set pairs := (internLabelPairs s.interner labels).1 with hpairs
  have hfresh := h.lookup_nextStreamId
  have hlook : ∀ i, ((s.trackLabels labels).createStream pairs).streams.lookup i =
      if i = s.nextStreamId then some ⟨pairs, []⟩ else s.streams.lookup i := fun i =>
    Finmap.lookup_insert_eq_ite _ _ _ _
  have hcarries : ∀ pair i, ((s.trackLabels labels).createStream pairs).Carries pair i ↔
      (i = s.nextStreamId ∧ pair ∈ pairs) ∨ s.Carries pair i := by
    intro pair i
    rw [Carries, hlook]
    by_cases hi : i = s.nextStreamId
    · subst hi; simp [Carries, hfresh]
    · simp [hi, Carries]
  have hnext : s.nextStreamId < u64SaturatingSucc s.nextStreamId :=
    lt_min (Nat.lt_succ_self _) hroom
  refine ⟨⟨?_, ?_, ?_, ?_, ?_, ?_⟩, ?_⟩
  · refine (h.labelIndex.addAll _).congr fun pair i => ?_
    rw [hcarries, List.mem_map]
    refine or_congr ⟨?_, fun hi => ⟨pair, hi.2, by rw [hi.1]; rfl⟩⟩ Iff.rfl
    rintro ⟨p, hp, heq⟩
    obtain ⟨rfl, rfl⟩ := Prod.mk.inj heq
    exact ⟨rfl, hp⟩
  · refine (h.labelValues.addAll _).congr fun k v => ?_
    simp only [hcarries, exists_or]
    refine or_congr ⟨fun hp => ⟨_, rfl, hp⟩, ?_⟩ Iff.rfl
    rintro ⟨i, -, hp⟩
    exact hp
  · intro labels' i
    rw [hlook]
    show (s.streamIds.insert pairs s.nextStreamId).lookup labels' = some i ↔ _
    rw [Finmap.lookup_insert_eq_ite]
    by_cases hl : labels' = pairs
    · -- only the new stream has the new label set
      subst hl
      rw [if_pos rfl, Option.some_inj]
      constructor
      · rintro rfl
        exact ⟨_, if_pos rfl, rfl⟩
      · rintro ⟨stream, hst, hlab⟩
        by_contra hne
        rw [if_neg (Ne.symm hne)] at hst
        have := (h.streamIds pairs i).mpr ⟨stream, hst, hlab⟩
        rw [hnone] at this
        exact absurd this (by simp)
    · rw [if_neg hl, h.streamIds]
      by_cases hi : i = s.nextStreamId
      · subst hi; simp [hfresh, Ne.symm hl]
      · simp [hi]
  · intro i stream hst
    rw [hlook] at hst
    split at hst
    · next hi => exact hi ▸ hnext
    · exact (h.next hst).trans hnext
  · intro i stream hst
    rw [hlook] at hst
    split at hst
    · obtain rfl := Option.some.inj hst
      exact List.sortedBy_nil _
    · exact h.sorted hst
  · intro i stream hst pair hp
    rw [hlook] at hst
    have hext := extends_internLabelPairs s.interner labels
    split at hst
    · obtain rfl := Option.some.inj hst
      exact valid_internLabelPairs s.interner labels pair hp
    · exact ⟨(h.interned hst pair hp).1.mono hext, (h.interned hst pair hp).2.mono hext⟩
  · have hmem : s.nextStreamId ∉ s.streams := Finmap.lookup_eq_none.mp hfresh
    show s.total = (s.streams.insert s.nextStreamId ⟨pairs, []⟩).total _
    rw [Finmap.total_insert_of_notMem _ _ hmem, h.total]
    simp

/-- The number of ids an ingest creates. -/
def created (s : LabelStore Rodeo Spur α) (labels : List (String × String)) : ℕ :=
  if s.streamIds.lookup (internLabelPairs s.interner labels).1 = none then 1 else 0

theorem Invariant.streamFor {s : LabelStore Rodeo Spur α} (h : s.Invariant)
    {labels : List (String × String)} (hroom : s.nextStreamId + s.created labels ≤ u64Max) :
    (s.streamFor labels).1.Invariant ∧ ∃ stream,
      (s.streamFor labels).1.streams.lookup (s.streamFor labels).2 = some stream ∧
        stream.labels = (internLabelPairs s.interner labels).1 := by
  rw [LabelStore.streamFor]
  cases hid : s.streamIds.lookup (internLabelPairs s.interner labels).1 with
  | some id =>
    obtain ⟨stream, hst, hlabels⟩ := (h.streamIds _ id).mp hid
    exact ⟨h.trackLabels hid, stream, hst, hlabels⟩
  | none =>
    rw [created, if_pos hid] at hroom
    exact ⟨h.createStream (by omega) hid, _, Finmap.lookup_insert _, rfl⟩

theorem Invariant.extendStream {s : LabelStore Rodeo Spur α} (h : s.Invariant) (id : ℕ)
    (batch : List α) : (s.extendStream id batch).Invariant := by
  rw [LabelStore.extendStream]
  split
  · exact h
  · next stream hst =>
    refine h.setEntries hst (sortedBy_appendBatch (h.sorted hst) batch) ?_
    have := (appendBatch_perm stream.entries batch).length_eq
    rw [List.length_append] at this
    omega

theorem Invariant.ingest {s : LabelStore Rodeo Spur α} (h : s.Invariant)
    {labels : List (String × String)} (hroom : s.nextStreamId + s.created labels ≤ u64Max)
    (batch : List α) : (s.ingest labels batch).Invariant :=
  (h.streamFor hroom).1.extendStream _ batch

omit [LinearOrder Spur] [Interner Rodeo Spur] in
theorem extendStream_of_some {s : LabelStore Rodeo Spur α} {id : ℕ} {stream : Stream Spur α}
    (hst : s.streams.lookup id = some stream) (batch : List α) :
    s.extendStream id batch = { s with
      streams := s.streams.insert id { stream with entries := appendBatch stream.entries batch }
      total := s.total + batch.length } := by
  rw [LabelStore.extendStream, hst]

/-- **An ingest under new labels** creates a stream that holds the batch. -/
theorem ingest_of_none {s : LabelStore Rodeo Spur α} {labels : List (String × String)}
    (hnone : s.streamIds.lookup (internLabelPairs s.interner labels).1 = none) (batch : List α) :
    s.ingest labels batch =
      { (s.trackLabels labels).createStream (internLabelPairs s.interner labels).1 with
        streams := s.streams.insert s.nextStreamId
          ⟨(internLabelPairs s.interner labels).1, appendBatch [] batch⟩
        total := s.total + batch.length } := by
  rw [LabelStore.ingest, LabelStore.streamFor, hnone]
  dsimp only
  rw [extendStream_of_some (Finmap.lookup_insert _), LabelStore.createStream]
  dsimp only [LabelStore.trackLabels]
  rw [Finmap.insert_insert]

/-- **An ingest under known labels** appends to their stream. -/
theorem ingest_of_some {s : LabelStore Rodeo Spur α} {labels : List (String × String)} {id : ℕ}
    (hid : s.streamIds.lookup (internLabelPairs s.interner labels).1 = some id)
    {stream : Stream Spur α} (hst : s.streams.lookup id = some stream) (batch : List α) :
    s.ingest labels batch =
      { s.trackLabels labels with
        streams := s.streams.insert id { stream with entries := appendBatch stream.entries batch }
        total := s.total + batch.length } := by
  rw [LabelStore.ingest, LabelStore.streamFor, hid]
  have hst : (s.trackLabels labels).streams.lookup id = some stream := hst
  exact extendStream_of_some hst batch

theorem Invariant.intern {s : LabelStore Rodeo Spur α} (h : s.Invariant) (string : String) :
    (s.intern string).Invariant :=
  have hext := extends_getOrIntern s.interner string
  ⟨⟨h.labelIndex, h.labelValues, h.streamIds, h.next, h.sorted, fun hst pair hp =>
    ⟨(h.interned hst pair hp).1.mono hext, (h.interned hst pair hp).2.mono hext⟩⟩, h.total⟩

omit [LinearOrder Spur] [Interner Rodeo Spur] in
theorem extendStream_nextStreamId (s : LabelStore Rodeo Spur α) (id : ℕ) (batch : List α) :
    (s.extendStream id batch).nextStreamId = s.nextStreamId := by
  rw [LabelStore.extendStream]
  split <;> rfl

theorem nextStreamId_ingest_le (s : LabelStore Rodeo Spur α) (labels : List (String × String))
    (batch : List α) : (s.ingest labels batch).nextStreamId ≤ s.nextStreamId + s.created labels := by
  rw [LabelStore.ingest, extendStream_nextStreamId, LabelStore.streamFor, created]
  cases hid : s.streamIds.lookup (internLabelPairs s.interner labels).1 with
  | some id => exact Nat.le_add_right _ _
  | none => exact min_le_left _ _

/-! ### Taking one stream out -/

/-- **A stream that goes takes its share of every index with it**, and nothing else. -/
theorem Indexed.removeStream {s : LabelStore Rodeo Spur α} (h : s.Indexed) (id : ℕ) :
    (s.removeStream id).Indexed := by
  cases hid : s.streams.lookup id with
  | none => rw [LabelStore.removeStream, hid]; exact h
  | some stream =>
    have hlook := lookup_removeStream s id
    have hcarries : ∀ pair i, (s.removeStream id).Carries pair i ↔
        s.Carries pair i ∧ ¬ (pair ∈ stream.labels ∧ i = id) := by
      intro pair i
      simp only [Carries, hlook]
      by_cases hi : i = id
      · subst hi; simp [hid]
      · simp [hi]
    have hsome : ∀ {i st}, (s.removeStream id).streams.lookup i = some st →
        i ≠ id ∧ s.streams.lookup i = some st := by
      intro i st hst
      rw [hlook] at hst
      split at hst
      · exact absurd hst (by simp)
      · next hi => exact ⟨hi, hst⟩
    obtain ⟨hidx, hval⟩ :=
      represents_removeFromLabelIndexes h.labelIndex h.labelValues stream.labels id
    have hself : s.removeStream id = { s with
        streams := s.streams.erase id
        streamIds := s.streamIds.erase stream.labels
        labelIndex := (removeFromLabelIndexes s.labelIndex s.labelValues stream.labels id).1
        labelValues := (removeFromLabelIndexes s.labelIndex s.labelValues stream.labels id).2 } := by
      rw [LabelStore.removeStream, hid]
    refine ⟨?_, ?_, fun labels i => ?_, fun hst => ?_, fun hst => h.sorted (hsome hst).2,
      fun hst => ?_⟩
    · rw [hself] at hcarries ⊢
      exact hidx.congr fun pair i => (hcarries pair i).symm
    · rw [hself] at hcarries ⊢
      exact hval.congr fun k v => exists_congr fun i => (hcarries (k, v) i).symm
    · have hids : (s.removeStream id).streamIds = s.streamIds.erase stream.labels := by rw [hself]
      rw [hids, Finmap.lookup_erase_eq_ite]
      simp only [hlook]
      by_cases hl : labels = stream.labels
      · simp only [if_pos hl, reduceCtorEq, false_iff]
        rintro ⟨st, hst, hlab⟩
        split at hst
        · exact absurd hst (by simp)
        · next hi => exact hi (h.eq_of_labels_eq hst hid (hlab.trans hl))
      · rw [if_neg hl, h.streamIds]
        by_cases hi : i = id
        · subst hi; simp [hid, Ne.symm hl]
        · simp [hi]
    · rw [removeStream_nextStreamId]
      exact h.next (hsome hst).2
    · rw [removeStream_interner]
      exact h.interned (hsome hst).2

/-- An empty stream has no share of the total. -/
theorem Invariant.removeStream {s : LabelStore Rodeo Spur α} (h : s.Invariant) {id : ℕ}
    (hempty : ∀ stream, s.streams.lookup id = some stream → stream.entries = []) :
    (s.removeStream id).Invariant where
  toIndexed := h.toIndexed.removeStream id
  total := by
    rw [removeStream_total, h.total]
    cases hid : s.streams.lookup id with
    | none => rw [LabelStore.removeStream, hid]
    | some stream =>
      have := total_streams_removeStream hid fun st => st.entries.length
      rw [hempty stream hid, List.length_nil, Nat.add_zero] at this
      exact this.symm

/-- Removing a list of empty streams. -/
theorem Invariant.foldl_removeStream {s : LabelStore Rodeo Spur α} (h : s.Invariant)
    {ids : List ℕ}
    (hempty : ∀ id ∈ ids, ∀ stream, s.streams.lookup id = some stream → stream.entries = []) :
    (ids.foldl LabelStore.removeStream s).Invariant := by
  induction ids generalizing s with
  | nil => exact h
  | cons id ids ih =>
    refine ih (h.removeStream (hempty id (by simp))) fun i hi stream hst => ?_
    rw [lookup_removeStream] at hst
    split at hst
    · exact absurd hst (by simp)
    · exact hempty i (by simp [hi]) stream hst

theorem Invariant.dropStream {s : LabelStore Rodeo Spur α} (h : s.Invariant) (id : ℕ) :
    (s.dropStream id).Invariant := by
  rw [LabelStore.dropStream]
  cases hid : s.streams.lookup id with
  | none => exact h
  | some stream =>
    have hrem := h.toIndexed.removeStream id
    refine ⟨⟨hrem.labelIndex, hrem.labelValues, hrem.streamIds, hrem.next, hrem.sorted,
      hrem.interned⟩, ?_⟩
    have := total_streams_removeStream hid fun st => st.entries.length
    have := h.total
    show s.total - stream.entries.length = (s.removeStream id).streams.total _
    omega

theorem Invariant.foldl_dropStream {s : LabelStore Rodeo Spur α} (h : s.Invariant)
    (ids : List ℕ) : (ids.foldl LabelStore.dropStream s).Invariant := by
  induction ids generalizing s with
  | nil => exact h
  | cons id ids ih => exact ih (h.dropStream id)

theorem Invariant.clearService {s : LabelStore Rodeo Spur α} (h : s.Invariant) (service : String) :
    (s.clearService service).Invariant := by
  rw [LabelStore.clearService]
  split
  · exact h
  · exact h.foldl_dropStream _

/-! ### Draining -/

omit [LinearOrder Spur] [Interner Rodeo Spur] in
theorem lookup_drainBefore (cutoff : ℤ) (acc : LabelStore Rodeo Spur α × List ℕ) (id i : ℕ) :
    (drainBefore cutoff acc id).1.streams.lookup i =
      if i = id then (acc.1.streams.lookup i).map fun stream =>
        { stream with entries := kept cutoff stream.entries }
      else acc.1.streams.lookup i := by
  rw [drainBefore]
  split
  · next hnone =>
    split
    · next hi => rw [hi, hnone]; rfl
    · rfl
  · next stream hst =>
    show (Finmap.insert _ _ _).lookup i = _
    rw [Finmap.lookup_insert_eq_ite]
    split
    · next hi => subst hi; rw [hst]; rfl
    · rfl

omit [LinearOrder Spur] [Interner Rodeo Spur] in
/-- **The drain loop**: every stream visited keeps what is not older than the cutoff, and the
streams remembered are the ones visited that keep nothing. -/
theorem foldl_drainBefore (cutoff : ℤ) {ids : List ℕ} (hnodup : ids.Nodup)
    (acc : LabelStore Rodeo Spur α × List ℕ) :
    (∀ i, (ids.foldl (drainBefore cutoff) acc).1.streams.lookup i =
      if i ∈ ids then (acc.1.streams.lookup i).map fun stream =>
        { stream with entries := kept cutoff stream.entries }
      else acc.1.streams.lookup i) ∧
    ∀ i, i ∈ (ids.foldl (drainBefore cutoff) acc).2 ↔ i ∈ acc.2 ∨ i ∈ ids ∧
      ∃ stream, acc.1.streams.lookup i = some stream ∧ kept cutoff stream.entries = [] := by
  induction ids generalizing acc with
  | nil => exact ⟨fun i => by simp, fun i => by simp⟩
  | cons id ids ih =>
    obtain ⟨hid, hnodup⟩ := List.nodup_cons.mp hnodup
    obtain ⟨h1, h2⟩ := ih hnodup (drainBefore cutoff acc id)
    refine ⟨fun i => ?_, fun i => ?_⟩
    · rw [List.foldl_cons, h1, lookup_drainBefore]
      by_cases hi : i = id
      · subst hi; simp [hid]
      · simp [hi]
    · have hsnd : i ∈ (drainBefore cutoff acc id).2 ↔ i ∈ acc.2 ∨ i = id ∧
          ∃ stream, acc.1.streams.lookup i = some stream ∧ kept cutoff stream.entries = [] := by
        rw [drainBefore]
        split
        · next hnone =>
          refine (or_iff_left ?_).symm
          rintro ⟨rfl, stream, hst, -⟩
          rw [hnone] at hst
          exact absurd hst (by simp)
        · next stream hst =>
          by_cases hi : i = id
          · subst hi
            by_cases hk : kept cutoff stream.entries = [] <;> simp [hst, hk]
          · by_cases hk : kept cutoff stream.entries = [] <;> simp [hi, hk]
      rw [List.foldl_cons, h2, hsnd, lookup_drainBefore]
      by_cases hi : i = id
      · subst hi; simp [hid]
      · simp [hi]

theorem Invariant.drainBefore {acc : LabelStore Rodeo Spur α × List ℕ} (h : acc.1.Invariant)
    (cutoff : ℤ) (id : ℕ) : (drainBefore cutoff acc id).1.Invariant := by
  rw [LabelStore.drainBefore]
  split
  · exact h
  · next stream hst =>
    have hsorted : (kept cutoff stream.entries).SortedBy timestamp := (h.sorted hst).drop _
    refine h.setEntries hst hsorted ?_
    have hle : (kept cutoff stream.entries).length ≤ stream.entries.length :=
      (List.drop_sublist _ _).length_le
    have := Finmap.le_total (fun st : Stream Spur α => st.entries.length) hst
    have := h.total
    omega

theorem Invariant.foldl_drainBefore {acc : LabelStore Rodeo Spur α × List ℕ}
    (h : acc.1.Invariant) (cutoff : ℤ) (ids : List ℕ) :
    (ids.foldl (LabelStore.drainBefore cutoff) acc).1.Invariant := by
  induction ids generalizing acc with
  | nil => exact h
  | cons id ids ih => exact ih (h.drainBefore cutoff id)

omit [Interner Rodeo Spur] in
/-- **What an eviction by age leaves**: of every stream the entries that are not older than the
cutoff, and no stream without any. -/
theorem lookup_evictBefore (it : IterOrder ℕ) (s : LabelStore Rodeo Spur α) (cutoff : ℤ) (i : ℕ) :
    (s.evictBefore it cutoff).streams.lookup i = (s.streams.lookup i).bind fun stream =>
      if kept cutoff stream.entries = [] then none
      else some { stream with entries := kept cutoff stream.entries } := by
  obtain ⟨h1, h2⟩ := foldl_drainBefore cutoff (it.nodup_keys s.streams) (s, [])
  rw [evictBefore, lookup_foldl_removeStream, h1]
  cases hst : s.streams.lookup i with
  | none => simp
  | some stream =>
    have hmem : i ∈ it.keys s.streams :=
      IterOrder.mem_keys.mpr (Finmap.mem_of_lookup_eq_some hst)
    by_cases hk : kept cutoff stream.entries = []
    · rw [if_pos ((h2 i).mpr (Or.inr ⟨hmem, stream, hst, hk⟩))]
      simp [hk]
    · rw [if_neg fun hi => ?_]
      · simp [hmem, hk]
      · obtain hi | ⟨-, st, hst', hk'⟩ := (h2 i).mp hi
        · exact absurd hi (by simp)
        · rw [hst] at hst'
          exact hk (Option.some.inj hst' ▸ hk')

theorem Invariant.evictBefore {s : LabelStore Rodeo Spur α} (h : s.Invariant) (it : IterOrder ℕ)
    (cutoff : ℤ) : (s.evictBefore it cutoff).Invariant := by
  obtain ⟨h1, h2⟩ := LabelStore.foldl_drainBefore cutoff (it.nodup_keys s.streams) (s, [])
  have hdrained : ((it.keys s.streams).foldl (LabelStore.drainBefore cutoff) (s, [])).1.Invariant :=
    Invariant.foldl_drainBefore h cutoff _
  refine hdrained.foldl_removeStream fun i hi st hst => ?_
  obtain hi | ⟨hmem, stream, hold, hk⟩ := (h2 i).mp hi
  · exact absurd hi (by simp)
  · rw [h1, if_pos hmem, hold] at hst
    obtain rfl := Option.some.inj hst
    exact hk

omit [LinearOrder Spur] [Interner Rodeo Spur] in
/-- What is kept of a sorted vector is what is not older than the cutoff. -/
theorem kept_eq_filter {cutoff : ℤ} {entries : List α} (h : entries.SortedBy timestamp) :
    kept cutoff entries = entries.filter fun e => decide (cutoff ≤ timestamp e) := by
  rw [kept, drainCount, List.drop_partitionPoint (List.partitioned_lt h cutoff)]
  refine List.filter_congr fun e _ => ?_
  rw [← decide_not, decide_eq_decide, not_lt]

omit [Interner Rodeo Spur] in
theorem evictBefore_frame (it : IterOrder ℕ) (s : LabelStore Rodeo Spur α) (cutoff : ℤ) :
    (s.evictBefore it cutoff).interner = s.interner ∧
      (s.evictBefore it cutoff).nextStreamId = s.nextStreamId := by
  have hdrain : ∀ (ids : List ℕ) (acc : LabelStore Rodeo Spur α × List ℕ),
      (ids.foldl (drainBefore cutoff) acc).1.interner = acc.1.interner ∧
        (ids.foldl (drainBefore cutoff) acc).1.nextStreamId = acc.1.nextStreamId := by
    intro ids
    induction ids with
    | nil => exact fun acc => ⟨rfl, rfl⟩
    | cons id ids ih =>
      intro acc
      rw [List.foldl_cons, (ih _).1, (ih _).2, drainBefore]
      split <;> exact ⟨rfl, rfl⟩
  have hremove : ∀ (ids : List ℕ) (s' : LabelStore Rodeo Spur α),
      (ids.foldl removeStream s').interner = s'.interner ∧
        (ids.foldl removeStream s').nextStreamId = s'.nextStreamId := by
    intro ids
    induction ids with
    | nil => exact fun s' => ⟨rfl, rfl⟩
    | cons id ids ih =>
      intro s'
      rw [List.foldl_cons, (ih _).1, (ih _).2, removeStream_interner, removeStream_nextStreamId]
      exact ⟨rfl, rfl⟩
  rw [evictBefore, (hremove _ _).1, (hremove _ _).2]
  exact hdrain _ _

omit [Timestamped α] in
@[simp] theorem clearService_interner (s : LabelStore Rodeo Spur α) (service : String) :
    (s.clearService service).interner = s.interner := by
  rw [clearService]
  split
  · rfl
  · exact foldl_dropStream_interner s _

omit [Timestamped α] in
@[simp] theorem clearService_nextStreamId (s : LabelStore Rodeo Spur α) (service : String) :
    (s.clearService service).nextStreamId = s.nextStreamId := by
  rw [clearService]
  split
  · rfl
  · exact foldl_dropStream_nextStreamId s _

/-! ### Labels as strings -/

omit [LinearOrder Spur] [Timestamped α] in
theorem resolveLabels_congr {s s' : LabelStore Rodeo Spur α} (h : s'.interner = s.interner) :
    s'.resolveLabels = s.resolveLabels := by
  funext labels
  rw [resolveLabels, resolveLabels, h]

/-- A live stream has a label, read as strings, exactly when it carries the keys of the two
strings. -/
theorem Indexed.mem_resolveLabels {s : LabelStore Rodeo Spur α} (h : s.Indexed) {id : ℕ}
    {stream : Stream Spur α} (hst : s.streams.lookup id = some stream) {k v : String} :
    (k, v) ∈ s.resolveLabels stream.labels ↔
      ∃ pair ∈ stream.labels, get s.interner k = some pair.1 ∧ get s.interner v = some pair.2 := by
  rw [resolveLabels, List.mem_map]
  refine exists_congr fun pair => and_congr_right fun hp => ?_
  obtain ⟨hk, hv⟩ := h.interned hst pair hp
  constructor
  · intro heq
    obtain ⟨rfl, rfl⟩ := Prod.mk.inj heq
    exact ⟨hk.get_resolve, hv.get_resolve⟩
  · rintro ⟨hk', hv'⟩
    rw [resolve_of_get hk', resolve_of_get hv']

/-- **`clear_service` takes out the streams labelled with the service**, and no other. -/
theorem Indexed.lookup_clearService {s : LabelStore Rodeo Spur α} (h : s.Indexed)
    (service : String) (i : ℕ) :
    (s.clearService service).streams.lookup i = (s.streams.lookup i).filter fun stream =>
      decide (("service", service) ∉ s.resolveLabels stream.labels) := by
  rw [clearService]
  cases hids : s.serviceStreams service with
  | none =>
    -- one of the lookups failed, so no live stream has the label
    cases hst : s.streams.lookup i with
    | none => rfl
    | some stream =>
      refine (Option.filter_eq_some_iff.mpr ⟨rfl, ?_⟩).symm
      rw [decide_eq_true_eq, h.mem_resolveLabels hst]
      rintro ⟨pair, hp, hk, hv⟩
      obtain ⟨pl, hpl, -⟩ := (h.labelIndex.holds_iff pair i).mpr ⟨stream, hst, hp⟩
      simp [serviceStreams, hk, hv, hpl] at hids
  | some ids =>
    obtain ⟨v, hv, k, hk, pl, hpl, rfl⟩ : ∃ v, get s.interner service = some v ∧
        ∃ k, get s.interner "service" = some k ∧
          ∃ pl, s.labelIndex.lookup (k, v) = some pl ∧ pl.ids = ids := by
      simpa [serviceStreams, Option.bind_eq_some_iff] using hids
    show (pl.ids.foldl dropStream s).streams.lookup i = _
    rw [lookup_foldl_dropStream]
    have hmem : i ∈ pl.ids ↔ s.Carries (k, v) i := h.labelIndex.mem_lookup hpl i
    cases hst : s.streams.lookup i with
    | none => simp
    | some stream =>
      have hiff : i ∈ pl.ids ↔ ("service", service) ∈ s.resolveLabels stream.labels := by
        rw [hmem, h.mem_resolveLabels hst, Carries, hst]
        simp [hk, hv]
      by_cases hi : i ∈ pl.ids
      · simp [hi, hiff.mp hi, Option.filter]
      · simp [hi, mt hiff.mpr hi, Option.filter]

/-! ### Restoring -/

/-- **Rebuilding the identity map of a store that fits gives it back**, with a next id that is no
larger. -/
theorem Invariant.rebuildStreamIds {s : LabelStore Rodeo Spur α} (h : s.Invariant)
    (hroom : s.nextStreamId ≤ u64Max) (it : IterOrder ℕ) :
    (s.rebuildStreamIds it).Invariant ∧
      (s.rebuildStreamIds it).nextStreamId ≤ s.nextStreamId := by
  have hstep : ∀ (ids : List ℕ) (m : FxHashMap (LabelPairs Spur) ℕ) (n : ℕ),
      n ≤ s.nextStreamId → ∃ m' n', n ≤ n' ∧ n' ≤ s.nextStreamId ∧
        ids.foldl rebuildStreamId { s with streamIds := m, nextStreamId := n } =
          { s with streamIds := m', nextStreamId := n' } ∧
        (∀ i ∈ ids, i ∈ s.streams → i < n') ∧
        ∀ labels, m'.lookup labels = (if ∃ i ∈ ids, ∃ stream, s.streams.lookup i = some stream ∧
          stream.labels = labels then s.streamIds.lookup labels else m.lookup labels) := by
    intro ids
    induction ids with
    | nil => exact fun m n hn => ⟨m, n, le_rfl, hn, rfl, by simp, by simp⟩
    | cons id ids ih =>
      intro m n hn
      cases hst : s.streams.lookup id with
      | none =>
        obtain ⟨m', n', hnn, hn', heq, hlt, hlook⟩ := ih m n hn
        refine ⟨m', n', hnn, hn', ?_, ?_, ?_⟩
        · rw [List.foldl_cons, rebuildStreamId]
          simp only [hst, heq]
        · intro i hi his
          rcases List.mem_cons.mp hi with rfl | hi
          · exact absurd his (Finmap.lookup_eq_none.mp hst)
          · exact hlt i hi his
        · intro labels
          rw [hlook]
          simp [hst]
      | some stream =>
        have hid := h.next hst
        have hsucc : u64SaturatingSucc id = id + 1 := min_eq_left (by omega)
        obtain ⟨m', n', hnn, hn', heq, hlt, hlook⟩ :=
          ih (m.insert stream.labels id) (max n (id + 1)) (by omega)
        refine ⟨m', n', by omega, hn', ?_, ?_, ?_⟩
        · rw [List.foldl_cons, rebuildStreamId]
          simp only [hst, hsucc, heq]
        · intro i hi his
          rcases List.mem_cons.mp hi with rfl | hi
          · omega
          · exact hlt i hi his
        · intro labels
          rw [hlook, Finmap.lookup_insert_eq_ite]
          by_cases hl : stream.labels = labels
          · have hids := (h.streamIds labels id).mpr ⟨stream, hst, hl⟩
            simp [hst, hl, hids]
          · simp [hst, hl, Ne.symm hl]
  obtain ⟨m', n', -, hn', heq, hlt, hlook⟩ :=
    hstep ((it.keys s.streams).sortByKey fun id => id) ∅ 0 (Nat.zero_le _)
  have hself : s.rebuildStreamIds it = { s with streamIds := m', nextStreamId := n' } := heq
  have hmem : ∀ {i stream}, s.streams.lookup i = some stream →
      i ∈ (it.keys s.streams).sortByKey fun id => id := fun hst =>
    List.mem_sortByKey.mpr (IterOrder.mem_keys.mpr (Finmap.mem_of_lookup_eq_some hst))
  rw [hself]
  refine ⟨⟨⟨h.labelIndex, h.labelValues, fun labels i => ?_, fun hst => ?_, h.sorted,
    h.interned⟩, h.total⟩, hn'⟩
  · show m'.lookup labels = some i ↔ _
    rw [hlook, ← h.streamIds]
    split
    · exact Iff.rfl
    · next hno =>
      refine ⟨fun h0 => by simp at h0, fun hids => ?_⟩
      obtain ⟨stream, hst, hlab⟩ := (h.streamIds labels i).mp hids
      exact absurd ⟨i, hmem hst, stream, hst, hlab⟩ hno
  · exact hlt _ (hmem hst) (Finmap.mem_of_lookup_eq_some hst)

/-! ### Ingest only grows -/

/-- **What an ingest does to the streams**: it writes one, under the labels, which is new or had
these labels before. -/
theorem Indexed.ingest_streams {s : LabelStore Rodeo Spur α} (h : s.Indexed)
    (labels : List (String × String)) (batch : List α) :
    ∃ id stream, (s.ingest labels batch).streams = s.streams.insert id stream ∧
      stream.labels = (internLabelPairs s.interner labels).1 ∧
      (id = s.nextStreamId ∨
        ∃ old, s.streams.lookup id = some old ∧ old.labels = stream.labels) := by
  cases hid : s.streamIds.lookup (internLabelPairs s.interner labels).1 with
  | none => exact ⟨_, _, congrArg LabelStore.streams (ingest_of_none hid batch), rfl, .inl rfl⟩
  | some id =>
    obtain ⟨old, hold, hlabels⟩ := (h.streamIds _ id).mp hid
    exact ⟨_, _, congrArg LabelStore.streams (ingest_of_some hid hold batch), hlabels,
      .inr ⟨old, hold, rfl⟩⟩

theorem ingest_interner (s : LabelStore Rodeo Spur α) (labels : List (String × String))
    (batch : List α) :
    (s.ingest labels batch).interner = (internLabelPairs s.interner labels).2 := by
  rw [LabelStore.ingest, LabelStore.extendStream, LabelStore.streamFor]
  cases s.streamIds.lookup (internLabelPairs s.interner labels).1 with
  | none =>
    dsimp only
    split <;> rfl
  | some id =>
    dsimp only
    split <;> rfl

/-- Every stream of `s` is a stream of `s'` by the same id, with the same labels. -/
structure Grows (s s' : LabelStore Rodeo Spur α) : Prop where
  streams : ∀ {id stream}, s.streams.lookup id = some stream →
    ∃ stream', s'.streams.lookup id = some stream' ∧ stream'.labels = stream.labels
  interner : Extends s.interner s'.interner

omit [LinearOrder Spur] [Timestamped α] in
theorem Grows.refl (s : LabelStore Rodeo Spur α) : s.Grows s :=
  ⟨fun h => ⟨_, h, rfl⟩, Extends.refl _⟩

omit [LinearOrder Spur] [Timestamped α] in
theorem Grows.trans {s₁ s₂ s₃ : LabelStore Rodeo Spur α} (h₁ : s₁.Grows s₂) (h₂ : s₂.Grows s₃) :
    s₁.Grows s₃ where
  streams h := by
    obtain ⟨stream₂, h', hlab⟩ := h₁.streams h
    obtain ⟨stream₃, h'', hlab'⟩ := h₂.streams h'
    exact ⟨stream₃, h'', hlab'.trans hlab⟩
  interner := h₁.interner.trans h₂.interner

theorem Indexed.grows_ingest {s : LabelStore Rodeo Spur α} (h : s.Indexed)
    (labels : List (String × String)) (batch : List α) : s.Grows (s.ingest labels batch) where
  streams {i st} hst := by
    obtain ⟨id, stream, heq, -, hold⟩ := h.ingest_streams labels batch
    rw [heq, Finmap.lookup_insert_eq_ite]
    by_cases hi : i = id
    · subst hi
      obtain rfl | ⟨old, hold, hlabels⟩ := hold
      · rw [h.lookup_nextStreamId] at hst
        simp at hst
      · rw [hst] at hold
        obtain rfl := Option.some.inj hold
        exact ⟨stream, if_pos rfl, hlabels.symm⟩
    · exact ⟨st, (if_neg hi).trans hst, rfl⟩
  interner := by
    rw [ingest_interner]
    exact extends_internLabelPairs _ _

/-- A stream that was there keeps the labels it shows. -/
theorem Indexed.getStreamLabels_of_grows {s s' : LabelStore Rodeo Spur α} (h : s.Indexed)
    (hg : s.Grows s') {id : ℕ} {labels : List (String × String)}
    (hl : s.getStreamLabels id = some labels) : s'.getStreamLabels id = some labels := by
  obtain ⟨stream, hst, rfl⟩ := Option.map_eq_some_iff.mp hl
  obtain ⟨stream', hst', hlabels⟩ := hg.streams hst
  refine Option.map_eq_some_iff.mpr ⟨stream', hst', ?_⟩
  rw [hlabels]
  refine List.map_congr_left fun pair hp => ?_
  rw [(h.interned hst pair hp).1.resolve_eq hg.interner,
    (h.interned hst pair hp).2.resolve_eq hg.interner]

/-- **An ingest leaves a stream with the labels it was given**, up to their order. -/
theorem Indexed.getStreamLabels_ingest {s : LabelStore Rodeo Spur α} (h : s.Indexed)
    (labels : List (String × String)) (batch : List α) :
    ∃ id stored, (s.ingest labels batch).getStreamLabels id = some stored ∧
      stored.Perm labels := by
  obtain ⟨id, stream, heq, hlabels, -⟩ := h.ingest_streams labels batch
  refine ⟨id, _, by rw [getStreamLabels, heq, Finmap.lookup_insert, Option.map_some], ?_⟩
  rw [resolveLabels, hlabels, ingest_interner]
  exact ((List.sortByKey_perm _ _).map _).trans
    (List.Perm.of_eq (resolve_internPairs s.interner labels))

/-- A stream is there from before or has the next id. -/
theorem Indexed.mem_streams_ingest {s : LabelStore Rodeo Spur α} (h : s.Indexed)
    {labels : List (String × String)} {batch : List α} {i : ℕ}
    (hi : i ∈ (s.ingest labels batch).streams) : i ∈ s.streams ∨ i = s.nextStreamId := by
  obtain ⟨id, stream, heq, -, hold⟩ := h.ingest_streams labels batch
  rw [heq, Finmap.mem_insert] at hi
  rcases hi with rfl | hi
  · obtain rfl | ⟨old, hold, -⟩ := hold
    · exact .inr rfl
    · exact .inl (Finmap.mem_of_lookup_eq_some hold)
  · exact .inl hi

theorem le_nextStreamId_ingest {s : LabelStore Rodeo Spur α} (hle : s.nextStreamId ≤ u64Max)
    (labels : List (String × String)) (batch : List α) :
    s.nextStreamId ≤ (s.ingest labels batch).nextStreamId := by
  rw [LabelStore.ingest, extendStream_nextStreamId, LabelStore.streamFor]
  split
  · exact le_rfl
  · exact le_min (Nat.le_succ _) hle

/-! ### Removals only shrink -/

/-- Every stream of `s'` is a stream of `s` by the same id, with some of its entries. -/
def Shrinks (s s' : LabelStore Rodeo Spur α) : Prop :=
  ∀ id stream', s'.streams.lookup id = some stream' →
    ∃ stream, s.streams.lookup id = some stream ∧ stream'.labels = stream.labels ∧
      stream'.entries.Sublist stream.entries

omit [LinearOrder Spur] [Interner Rodeo Spur] [Timestamped α] in
theorem Shrinks.refl (s : LabelStore Rodeo Spur α) : s.Shrinks s :=
  fun _ _ h => ⟨_, h, rfl, List.Sublist.refl _⟩

omit [LinearOrder Spur] [Interner Rodeo Spur] [Timestamped α] in
theorem Shrinks.trans {s₁ s₂ s₃ : LabelStore Rodeo Spur α} (h₁ : s₁.Shrinks s₂)
    (h₂ : s₂.Shrinks s₃) : s₁.Shrinks s₃ := by
  intro id stream₃ h
  obtain ⟨stream₂, h', hlab, hsub⟩ := h₂ id stream₃ h
  obtain ⟨stream₁, h'', hlab', hsub'⟩ := h₁ id stream₂ h'
  exact ⟨stream₁, h'', hlab.trans hlab', hsub.trans hsub'⟩

omit [Interner Rodeo Spur] [Timestamped α] in
theorem shrinks_foldl_dropStream (s : LabelStore Rodeo Spur α) (ids : List ℕ) :
    s.Shrinks (ids.foldl LabelStore.dropStream s) := by
  intro id stream' h
  rw [lookup_foldl_dropStream] at h
  split at h
  · exact absurd h (by simp)
  · exact ⟨stream', h, rfl, List.Sublist.refl _⟩

omit [Timestamped α] in
theorem shrinks_clearService (s : LabelStore Rodeo Spur α) (service : String) :
    s.Shrinks (s.clearService service) := by
  rw [clearService]
  split
  · exact Shrinks.refl s
  · exact shrinks_foldl_dropStream s _

omit [Interner Rodeo Spur] in
theorem shrinks_evictBefore (it : IterOrder ℕ) (s : LabelStore Rodeo Spur α) (cutoff : ℤ) :
    s.Shrinks (s.evictBefore it cutoff) := by
  intro id stream' h
  rw [lookup_evictBefore] at h
  obtain ⟨stream, hst, h⟩ := Option.bind_eq_some_iff.mp h
  split at h
  · exact absurd h (by simp)
  · obtain rfl := Option.some.inj h
    exact ⟨stream, hst, rfl, List.drop_sublist _ _⟩

/-! ### Properties of single streams

What holds of a stream when it is created, and is kept when it is extended or shrunk, holds of every
stream along every run. It depends on no part of the invariant, not even on ids being left. -/

/-- `P` holds of a new stream, and extending or shrinking a stream keeps it. -/
structure StreamInvariant (P : Stream Spur α → Prop) : Prop where
  created : ∀ labels : LabelPairs Spur, labels.SortedBy Prod.fst → P ⟨labels, []⟩
  extended : ∀ (stream : Stream Spur α) (batch : List α), P stream →
    P { stream with entries := appendBatch stream.entries batch }
  shrunk : ∀ stream stream' : Stream Spur α, stream'.labels = stream.labels →
    stream'.entries.Sublist stream.entries → P stream → P stream'

/-- Every stream has the property. -/
def EveryStream (P : Stream Spur α → Prop) (s : LabelStore Rodeo Spur α) : Prop :=
  ∀ id stream, s.streams.lookup id = some stream → P stream

section EveryStream

variable {P : Stream Spur α → Prop} {s : LabelStore Rodeo Spur α}

omit [LinearOrder Spur] [Timestamped α] in
theorem everyStream_new : EveryStream P (new : LabelStore Rodeo Spur α) :=
  fun _ _ h => by simp [new] at h

omit [Interner Rodeo Spur] in
theorem StreamInvariant.of_shrinks (hP : StreamInvariant P) {s' : LabelStore Rodeo Spur α}
    (h : EveryStream P s) (hs : s.Shrinks s') : EveryStream P s' := by
  intro id stream' h'
  obtain ⟨stream, hst, hlabels, hsub⟩ := hs id stream' h'
  exact hP.shrunk stream stream' hlabels hsub (h id stream hst)

theorem StreamInvariant.streamFor (hP : StreamInvariant P) (h : EveryStream P s)
    (labels : List (String × String)) : EveryStream P (s.streamFor labels).1 := by
  rw [LabelStore.streamFor]
  split
  · exact h
  · intro id stream hst
    rw [createStream, trackLabels, Finmap.lookup_insert_eq_ite] at hst
    split at hst
    · obtain rfl := Option.some.inj hst
      exact hP.created _ (List.sortedBy_sortByKey _ _)
    · exact h id stream hst

omit [Interner Rodeo Spur] in
theorem StreamInvariant.extendStream (hP : StreamInvariant P) (h : EveryStream P s) (id : ℕ)
    (batch : List α) : EveryStream P (s.extendStream id batch) := by
  rw [LabelStore.extendStream]
  split
  · exact h
  · next old hold =>
    intro i stream hst
    rw [Finmap.lookup_insert_eq_ite] at hst
    split at hst
    · obtain rfl := Option.some.inj hst
      exact hP.extended old batch (h id old hold)
    · exact h i stream hst

theorem StreamInvariant.ingest (hP : StreamInvariant P) (h : EveryStream P s)
    (labels : List (String × String)) (batch : List α) : EveryStream P (s.ingest labels batch) :=
  hP.extendStream (hP.streamFor h labels) _ batch

end EveryStream

/-- Every vector is in the order of time. -/
def Sorted (s : LabelStore Rodeo Spur α) : Prop :=
  ∀ id stream, s.streams.lookup id = some stream → stream.entries.SortedBy timestamp

theorem streamInvariant_sorted :
    StreamInvariant fun stream : Stream Spur α => stream.entries.SortedBy timestamp where
  created _ _ := List.sortedBy_nil _
  extended _ batch h := sortedBy_appendBatch h batch
  shrunk _ _ _ hsub h := h.sublist hsub

omit [Interner Rodeo Spur] [LinearOrder Spur] [Timestamped α] in
/-- Rebuilding the identity map leaves the streams and the interner alone. -/
theorem rebuildStreamIds_frame [LinearOrder Spur] (it : IterOrder ℕ) (s : LabelStore Rodeo Spur α) :
    (s.rebuildStreamIds it).streams = s.streams ∧
      (s.rebuildStreamIds it).interner = s.interner := by
  have hfold : ∀ (ids : List ℕ) (s' : LabelStore Rodeo Spur α),
      (ids.foldl rebuildStreamId s').streams = s'.streams ∧
        (ids.foldl rebuildStreamId s').interner = s'.interner := by
    intro ids
    induction ids with
    | nil => exact fun _ => ⟨rfl, rfl⟩
    | cons id ids ih =>
      intro s'
      rw [List.foldl_cons, (ih _).1, (ih _).2, rebuildStreamId]
      split <;> exact ⟨rfl, rfl⟩
  exact hfold _ _

/-! ### The invariant, read out -/

/-- **A consistent store**: what the invariant says, one piece of state at a time and in terms of
the maps themselves. -/
structure Consistent (s : LabelStore Rodeo Spur α) : Prop where
  /-- A pair is bound exactly when a live stream carries it. -/
  mem_labelIndex : ∀ pair, pair ∈ s.labelIndex ↔
    ∃ id stream, s.streams.lookup id = some stream ∧ pair ∈ stream.labels
  /-- Its posting list is strictly sorted and lists the streams that carry it. -/
  postings : ∀ pair pl, s.labelIndex.lookup pair = some pl →
    pl.ids.Pairwise (· < ·) ∧ ∀ id, id ∈ pl.ids ↔
      ∃ stream, s.streams.lookup id = some stream ∧ pair ∈ stream.labels
  /-- The values of a name are those it is indexed with. -/
  mem_labelValues : ∀ k v, (∃ values, s.labelValues.lookup k = some values ∧ v ∈ values) ↔
    (k, v) ∈ s.labelIndex
  labelValues_ne_empty : ∀ k values, s.labelValues.lookup k = some values → values ≠ ∅
  /-- The identity map is the inverse of the labels of the live streams. -/
  lookup_streamIds : ∀ labels id, s.streamIds.lookup labels = some id ↔
    ∃ stream, s.streams.lookup id = some stream ∧ stream.labels = labels
  lt_nextStreamId : ∀ id stream, s.streams.lookup id = some stream → id < s.nextStreamId
  total_eq : s.total = s.streams.total fun stream => stream.entries.length
  sorted : ∀ id stream, s.streams.lookup id = some stream →
    stream.entries.Pairwise fun a b => timestamp a ≤ timestamp b

theorem Invariant.consistent {s : LabelStore Rodeo Spur α} (h : s.Invariant) : s.Consistent where
  mem_labelIndex pair := h.labelIndex.mem_iff pair
  postings pair pl hpl := ⟨pl.sorted, h.labelIndex.mem_lookup hpl⟩
  mem_labelValues k v := by
    rw [h.labelIndex.mem_iff]
    exact h.labelValues.holds_iff k v
  labelValues_ne_empty k values hvalues := by
    obtain ⟨v, hv⟩ := h.labelValues.nonempty k values hvalues
    exact Finset.ne_empty_of_mem hv
  lookup_streamIds := h.streamIds
  lt_nextStreamId _ _ := h.next
  total_eq := h.total
  sorted _ _ := h.sorted

end LabelStore

end Aniani
