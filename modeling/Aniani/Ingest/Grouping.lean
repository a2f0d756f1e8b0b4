import Aniani.ForMathlib.FirstSeen
import Aniani.Ingest.Stamped
import Aniani.Store.Batching
import Aniani.Store.LabelSet

/-!
# Grouped records

An OTLP request is ingested batch by batch: the records with one label list, as it is written, make
one batch, and the batches come in the order their lists first come up. The store tells its streams
apart by the label set, so two batches can go to one stream, and there they do not interleave: the
records of the list that came up first are in front. Once the stream is sorted by time, that shows
among records of one time stamp, and nowhere else.

Two stores are compared by what their streams hold. Their interners give out different keys, so an
entry is the same in both if it is the entry of one prepared record, its strings by whatever keys,
or if it was there before.

## Main definitions

* `grouped`, `singly` — the records in batches, and each in a batch of its own
* `StoredAs` — a stored entry, as the prepared entry it was interned from
* `LogStore.Alike` — the streams hold the same
* `InOrderSeen` — no tie is broken by the order the label lists came up in
* `LogStore.ingestOneByOne` — the records of a request, each in an ingest of its own

## Main results

* `grouped_eq` — the batches, spelled out
* `LogStore.vectorOf_ingestBatches` — what batches leave under a label set
* `LogStore.alike_ingestBatches_iff`, `LogStore.alike_ingestLogs_iff`
-/

namespace Aniani

open Interner

/-! ### The batches of a request -/

section Batches

variable {F64 : Type}

/-- A record of a request: its label list and its entry. -/
abbrev LabelledEntry (F64 : Type) := List (String × String) × PreparedLogEntry F64

/-- The batches of the records, as a request groups them. -/
def grouped (recs : List (LabelledEntry F64)) : List (LogBatch F64) :=
  recs.foldl (fun batches r => pushEntry r.1 r.2 batches) []

/-- The records in batches of one. -/
def singly (recs : List (LabelledEntry F64)) : List (LogBatch F64) :=
  recs.map fun r => ⟨r.1, [r.2]⟩

/-- The records with one label list. -/
def batchOf (recs : List (LabelledEntry F64)) (labels : List (String × String)) : LogBatch F64 :=
  ⟨labels, (recs.filter fun r => r.1 == labels).map Prod.snd⟩

theorem batchOf_concat_of_ne {recs : List (LabelledEntry F64)} {r : LabelledEntry F64}
    {labels : List (String × String)} (h : labels ≠ r.1) :
    batchOf (recs ++ [r]) labels = batchOf recs labels := by
  rw [batchOf, batchOf, List.filter_append, List.filter_cons_of_neg (by simpa using h.symm),
    List.filter_nil, List.append_nil]

theorem batchOf_concat_self (recs : List (LabelledEntry F64)) (r : LabelledEntry F64) :
    batchOf (recs ++ [r]) r.1 =
      { batchOf recs r.1 with entries := (batchOf recs r.1).entries ++ [r.2] } := by
  simp [batchOf]

/-- A record goes to the batch with its label list, or opens one. -/
theorem pushEntry_map_batchOf {recs : List (LabelledEntry F64)} {r : LabelledEntry F64}
    {lists : List (List (String × String))} (hn : lists.Nodup)
    (hcover : (∃ r' ∈ recs, r'.1 = r.1) → r.1 ∈ lists) :
    pushEntry r.1 r.2 (lists.map (batchOf recs)) =
      (if r.1 ∈ lists then lists else lists ++ [r.1]).map (batchOf (recs ++ [r])) := by
  induction lists with
  | nil =>
    have hnone : recs.filter (fun r' => r'.1 == r.1) = [] := List.filter_eq_nil_iff.mpr
      fun r' hr' heq => List.not_mem_nil (hcover ⟨r', hr', eq_of_beq heq⟩)
    simp [pushEntry, batchOf, hnone]
  | cons labels lists ih =>
    obtain ⟨hnot, hn⟩ := List.nodup_cons.mp hn
    rw [List.map_cons, pushEntry]
    by_cases heq : labels = r.1
    · subst heq
      have hrest : lists.map (batchOf (recs ++ [r])) = lists.map (batchOf recs) :=
        List.map_congr_left fun l hl => batchOf_concat_of_ne fun h => hnot (h ▸ hl)
      rw [if_pos (show (batchOf recs r.1).labels = r.1 from rfl), if_pos List.mem_cons_self,
        List.map_cons, hrest, batchOf_concat_self]
    · have hmem : r.1 ∈ labels :: lists ↔ r.1 ∈ lists := by
        rw [List.mem_cons, or_iff_right (Ne.symm heq)]
      rw [if_neg (show ¬ (batchOf recs labels).labels = r.1 from heq),
        ih hn fun h => hmem.mp (hcover h)]
      simp only [hmem]
      split <;> rw [← batchOf_concat_of_ne heq] <;> rfl

/-- **The batches, spelled out**: one for each label list, in the order they first come up. -/
theorem grouped_eq (recs : List (LabelledEntry F64)) :
    grouped recs = (recs.map Prod.fst).eraseDups.map (batchOf recs) := by
  induction recs using List.reverseRecOn with
  | nil => rfl
  | append_singleton recs r ih =>
    have hmem : (∃ r' ∈ recs, r'.1 = r.1) ↔ r.1 ∈ recs.map Prod.fst := List.mem_map.symm
    have hstep : grouped (recs ++ [r]) = pushEntry r.1 r.2 (grouped recs) := List.foldl_concat _ _ _ _
    rw [hstep, ih, List.map_append, List.map_singleton, List.eraseDups_concat,
      pushEntry_map_batchOf (List.nodup_eraseDups _) fun h =>
        List.mem_eraseDups.mpr (hmem.mp h)]
    simp only [List.mem_eraseDups]

/-! ### Records of one label set -/

/-- The records that go to one stream. -/
def recordsOf (recs : List (LabelledEntry F64)) (labels : List (String × String)) :
    List (LabelledEntry F64) :=
  recs.filter fun r => decide (labelSet r.1 = labelSet labels)

/-- The entries that batches bring to one stream. -/
def entriesFor (batches : List (LogBatch F64)) (labels : List (String × String)) :
    List (PreparedLogEntry F64) :=
  (batches.filter fun batch => decide (labelSet batch.labels = labelSet labels)).flatMap
    LogBatch.entries

/-- Where the label list of a record, as it is written, came up. -/
def seenAt (recs : List (LabelledEntry F64)) (r : LabelledEntry F64) : ℕ :=
  (recs.map Prod.fst).idxOf r.1

/-- No two records of one label set and one time stamp have label lists that came up the other way
round. -/
def InOrderSeen (recs : List (LabelledEntry F64)) : Prop :=
  recs.Pairwise fun r r' => labelSet r.1 = labelSet r'.1 → r.2.timestampNs = r'.2.timestampNs →
    seenAt recs r ≤ seenAt recs r'

instance (recs : List (LabelledEntry F64)) : Decidable (InOrderSeen recs) :=
  inferInstanceAs (Decidable (List.Pairwise _ _))

theorem inOrderSeen_iff {recs : List (LabelledEntry F64)} : InOrderSeen recs ↔ ∀ labels,
    (((recordsOf recs labels).sortByKey (seenAt recs)).sortByKey fun r => r.2.timestampNs) =
      (recordsOf recs labels).sortByKey fun r => r.2.timestampNs := by
  simp only [List.sortByKey_sortByKey_eq_iff, recordsOf, List.pairwise_filter, decide_eq_true_eq]
  constructor
  · intro h labels
    exact h.imp fun hr hl hl' => hr (hl.trans hl'.symm)
  · intro h
    refine List.pairwise_iff_forall_sublist.mpr fun {r r'} hsub hlabels => ?_
    exact List.pairwise_iff_forall_sublist.mp (h r'.1) hsub hlabels rfl

/-- A batch comes to a stream exactly when a record does. -/
theorem exists_mem_grouped {recs : List (LabelledEntry F64)} {labels : List (String × String)} :
    (∃ batch ∈ grouped recs, labelSet batch.labels = labelSet labels) ↔
      recordsOf recs labels ≠ [] := by
  rw [grouped_eq, recordsOf, Ne, List.filter_eq_nil_iff]
  simp [batchOf, List.mem_eraseDups]

theorem exists_mem_singly {recs : List (LabelledEntry F64)} {labels : List (String × String)} :
    (∃ batch ∈ singly recs, labelSet batch.labels = labelSet labels) ↔
      recordsOf recs labels ≠ [] := by
  rw [singly, recordsOf, Ne, List.filter_eq_nil_iff]
  simp

/-- There are no more batches than records. -/
theorem length_grouped_le (recs : List (LabelledEntry F64)) :
    (grouped recs).length ≤ recs.length := by
  rw [grouped_eq, List.length_map]
  calc (recs.map Prod.fst).eraseDups.length
      ≤ (recs.map Prod.fst).length := (List.subperm_of_subset (List.nodup_eraseDups _) fun l =>
        List.mem_eraseDups.mp).length_le
    _ = recs.length := List.length_map _

/-- **Grouping sorts the records of a stream** by where their label lists came up. -/
theorem entriesFor_grouped (recs : List (LabelledEntry F64)) (labels : List (String × String)) :
    entriesFor (grouped recs) labels =
      ((recordsOf recs labels).sortByKey (seenAt recs)).map Prod.snd := by
  rw [grouped_eq, entriesFor, List.filter_map, List.flatMap_map]
  refine Eq.trans ?_ (congrArg (List.map Prod.snd) (List.flatMap_filter_eraseDups_of Prod.fst
    (fun l => decide (labelSet l = labelSet labels)) recs))
  rw [List.map_flatMap]
  rfl

theorem entriesFor_singly (recs : List (LabelledEntry F64)) (labels : List (String × String)) :
    entriesFor (singly recs) labels = (recordsOf recs labels).map Prod.snd := by
  rw [entriesFor, recordsOf, singly, List.filter_map, List.flatMap_map, ← List.flatMap_pure_eq_map]
  rfl

end Batches

/-! ### Stored entries -/

section Stored

variable {Rodeo Spur F64 : Type} [Interner Rodeo Spur]

/-- A stored attribute value, as the value it was interned from. -/
inductive ValueStoredAs (r : Rodeo) : PreparedLogAttr F64 → AttributeValue Spur F64 → Prop
  | string {t : String} {key : Spur} (h : get r t = some key) :
      ValueStoredAs r (.string t) (.string key)
  | int (i : ℤ) : ValueStoredAs r (.int i) (.int i)
  | float (f : F64) : ValueStoredAs r (.float f) (.float f)
  | bool (b : Bool) : ValueStoredAs r (.bool b) (.bool b)

/-- A stored attribute, as the attribute it was interned from. -/
def AttrStoredAs (r : Rodeo) (attr : String × PreparedLogAttr F64)
    (stored : Spur × AttributeValue Spur F64) : Prop :=
  get r attr.1 = some stored.1 ∧ ValueStoredAs r attr.2 stored.2

/-- A stored entry, as the prepared entry it was interned from: every string by its key, and the
rest as it was. -/
structure StoredAs (r : Rodeo) (p : PreparedLogEntry F64) (e : LogEntry Spur F64) : Prop where
  timestampNs : e.timestampNs = p.timestampNs
  line : e.line = p.line
  ingestSeq : e.ingestSeq = p.ingestSeq
  traceId : e.traceId = p.traceId
  spanId : e.spanId = p.spanId
  severityNumber : e.severityNumber = p.severityNumber
  severityText : Option.Rel (fun t key => get r t = some key) p.severityText e.severityText
  attributes : List.Forall₂ (AttrStoredAs r) p.attributes e.attributes

theorem ValueStoredAs.mono {r r' : Rodeo} {value : PreparedLogAttr F64}
    {stored : AttributeValue Spur F64} (h : ValueStoredAs r value stored) (hext : Extends r r') :
    ValueStoredAs r' value stored := by
  cases h with
  | string h => exact .string (hext _ _ h)
  | int i => exact .int i
  | float f => exact .float f
  | bool b => exact .bool b

theorem AttrStoredAs.mono {r r' : Rodeo} {attr : String × PreparedLogAttr F64}
    {stored : Spur × AttributeValue Spur F64} (h : AttrStoredAs r attr stored)
    (hext : Extends r r') : AttrStoredAs r' attr stored :=
  ⟨hext _ _ h.1, h.2.mono hext⟩

theorem StoredAs.mono {r r' : Rodeo} {p : PreparedLogEntry F64} {e : LogEntry Spur F64}
    (h : StoredAs r p e) (hext : Extends r r') : StoredAs r' p e where
  timestampNs := h.timestampNs
  line := h.line
  ingestSeq := h.ingestSeq
  traceId := h.traceId
  spanId := h.spanId
  severityNumber := h.severityNumber
  severityText := by
    have htext := h.severityText
    generalize p.severityText = text, e.severityText = stored at htext ⊢
    cases htext with
    | none => exact .none
    | some hkey => exact .some (hext _ _ hkey)
  attributes := h.attributes.imp fun _ _ hattr => hattr.mono hext

theorem attrStoredAs_internLogAttr (r : Rodeo) (attr : String × PreparedLogAttr F64) :
    AttrStoredAs (internLogAttr r attr).2 attr (internLogAttr r attr).1 := by
  obtain ⟨name, value⟩ := attr
  cases value with
  | string t =>
    exact ⟨extends_getOrIntern _ t _ _ (get_getOrIntern_self r name),
      .string (get_getOrIntern_self _ t)⟩
  | int i => exact ⟨get_getOrIntern_self r name, .int i⟩
  | float f => exact ⟨get_getOrIntern_self r name, .float f⟩
  | bool b => exact ⟨get_getOrIntern_self r name, .bool b⟩

/-- **What is stored is what was prepared**, with its strings interned. -/
theorem storedAs_internLogEntry (r : Rodeo) (p : PreparedLogEntry F64) :
    StoredAs (internLogEntry r p).2 p (internLogEntry r p).1 where
  timestampNs := rfl
  line := rfl
  ingestSeq := rfl
  traceId := rfl
  spanId := rfl
  severityNumber := rfl
  severityText := by
    rw [internLogEntry]
    dsimp only
    cases p.severityText with
    | none => exact .none
    | some t => exact .some (get_getOrIntern_self _ t)
  attributes := by
    have hattrs := forall₂_internEach (R := AttrStoredAs) LogStore.extends_internLogAttr
      attrStoredAs_internLogAttr (fun h hext => h.mono hext) r p.attributes
    exact hattrs.imp fun _ _ h => h.mono (extends_internOption _ _)

end Stored

/-! ### What batches leave under a label set -/

namespace LogStore

variable {Rodeo Spur F64 : Type} [LinearOrder Spur] [Interner Rodeo Spur]

theorem ingestBatch_interner (s : LogStore Rodeo Spur F64) (batch : LogBatch F64) :
    (s.ingestBatch batch).interner =
      (internLabelPairs (s.internBatch batch).interner batch.labels).2 := by
  rw [ingestBatch, toLabelStore_ingestStream, LabelStore.ingest_interner]

theorem extends_ingestBatch (s : LogStore Rodeo Spur F64) (batch : LogBatch F64) :
    Extends s.interner (s.ingestBatch batch).interner := by
  rw [ingestBatch_interner]
  exact (extends_internEach extends_internLogEntry s.interner batch.entries).trans
    (extends_internLabelPairs _ _)

theorem extends_ingestBatches (s : LogStore Rodeo Spur F64) (batches : List (LogBatch F64)) :
    Extends s.interner (s.ingestBatches batches).interner := by
  induction batches generalizing s with
  | nil => exact Extends.refl _
  | cons batch batches ih => exact (extends_ingestBatch s batch).trans (ih _)

/-- **One batch** is appended to the vector of its label set. -/
theorem vectorOf_ingestBatch {s : LogStore Rodeo Spur F64} (h : s.Invariant)
    (batch : LogBatch F64) : ∃ new,
      List.Forall₂ (StoredAs (s.ingestBatch batch).interner) batch.entries new ∧
      ∀ labels, (s.ingestBatch batch).vectorOf labels =
        if labelSet batch.labels = labelSet labels then
          some (LabelStore.appendBatch ((s.vectorOf labels).getD []) new)
        else s.vectorOf labels := by
  refine ⟨(internEach internLogEntry s.interner batch.entries).1, ?_, fun labels => ?_⟩
  · rw [ingestBatch_interner]
    have hstored := forall₂_internEach (R := StoredAs) extends_internLogEntry
      storedAs_internLogEntry (fun h hext => h.mono hext) s.interner batch.entries
    exact hstored.imp fun _ _ hp => hp.mono (extends_internLabelPairs _ _)
  · have hsame : (s.internBatch batch).vectorOf labels = s.vectorOf labels :=
      h.toIndexed.contents_internLabelPairs
        (extends_internEach extends_internLogEntry s.interner batch.entries) labels
    rw [ingestBatch, toLabelStore_ingestStream,
      (invariant_internBatch h batch).toIndexed.vectorOf_ingest, hsame]
    exact if_congr eq_comm rfl rfl

theorem created_le_one (s : LabelStore Rodeo Spur (LogEntry Spur F64))
    (labels : List (String × String)) : s.created labels ≤ 1 := by
  rw [LabelStore.created]
  split <;> omega

/-- A batch takes one id at most. -/
theorem room_ingestBatch {s : LogStore Rodeo Spur F64} (h : s.Invariant) (batch : LogBatch F64)
    {n : ℕ} (hroom : s.nextStreamId + (n + 1) ≤ u64Max) :
    (s.ingestBatch batch).Invariant ∧ (s.ingestBatch batch).nextStreamId + n ≤ u64Max := by
  have hone := created_le_one (s.internBatch batch).toLabelStore batch.labels
  have hnext := nextStreamId_ingestBatch_le s batch
  exact ⟨invariant_ingestBatch h (by omega), by omega⟩

theorem room_ingestBatches {s : LogStore Rodeo Spur F64} (h : s.Invariant)
    {batches : List (LogBatch F64)} (hroom : s.nextStreamId + batches.length ≤ u64Max) :
    (s.ingestBatches batches).Invariant := by
  induction batches generalizing s with
  | nil => exact h
  | cons batch batches ih =>
    obtain ⟨h', hroom'⟩ := room_ingestBatch h batch hroom
    exact ih h' hroom'

theorem sortedBy_vectorOf {s : LogStore Rodeo Spur F64} (h : s.Invariant)
    (labels : List (String × String)) :
    ((s.vectorOf labels).getD []).SortedBy timestamp := by
  cases hv : s.vectorOf labels with
  | none => exact List.sortedBy_nil _
  | some entries =>
    obtain ⟨id, hst⟩ := h.toIndexed.contents_eq_some_iff.mp hv
    exact h.sorted hst

/-- **What batches leave under a label set**: what they bring there, appended as one batch. -/
theorem vectorOf_ingestBatches {s : LogStore Rodeo Spur F64} (h : s.Invariant)
    {batches : List (LogBatch F64)} (hroom : s.nextStreamId + batches.length ≤ u64Max)
    (labels : List (String × String)) : ∃ new,
      List.Forall₂ (StoredAs (s.ingestBatches batches).interner) (entriesFor batches labels) new ∧
      (s.ingestBatches batches).vectorOf labels =
        if ∃ batch ∈ batches, labelSet batch.labels = labelSet labels then
          some (LabelStore.appendBatch ((s.vectorOf labels).getD []) new)
        else s.vectorOf labels := by
  induction batches generalizing s with
  | nil => exact ⟨[], .nil, by simp [ingestBatches]⟩
  | cons batch batches ih =>
    obtain ⟨h', hroom'⟩ := room_ingestBatch h batch hroom
    obtain ⟨first, hfirst, hone⟩ := vectorOf_ingestBatch h batch
    obtain ⟨rest, hrest, hmore⟩ := ih h' hroom'
    have hext := extends_ingestBatches (s.ingestBatch batch) batches
    by_cases hlabels : labelSet batch.labels = labelSet labels
    · refine ⟨first ++ rest, ?_, ?_⟩
      · rw [entriesFor, List.filter_cons_of_pos (by simpa using hlabels), List.flatMap_cons]
        exact List.rel_append (hfirst.imp fun _ _ hp => hp.mono hext) hrest
      · rw [if_pos ⟨batch, List.mem_cons_self, hlabels⟩]
        change ((s.ingestBatch batch).ingestBatches batches).vectorOf labels = _
        rw [hmore, hone, if_pos hlabels, Option.getD_some,
          LabelStore.appendBatch_appendBatch (sortedBy_vectorOf h labels)]
        split
        · rfl
        · next hno =>
          have hnil : entriesFor batches labels = [] := by
            rw [entriesFor, List.filter_eq_nil_iff.mpr fun b hb heq =>
              hno ⟨b, hb, of_decide_eq_true heq⟩, List.flatMap_nil]
          rw [hnil] at hrest
          obtain rfl := List.forall₂_nil_left_iff.mp hrest
          rw [List.append_nil]
    · refine ⟨rest, ?_, ?_⟩
      · rw [entriesFor, List.filter_cons_of_neg (by simpa using hlabels)]
        exact hrest
      · change ((s.ingestBatch batch).ingestBatches batches).vectorOf labels = _
        rw [hmore, hone, if_neg hlabels]
        refine if_congr ?_ rfl rfl
        simp [hlabels]

/-! ### Stores that hold the same -/

omit [LinearOrder Spur] [Interner Rodeo Spur] in
/-- Optional values are related when each one that is there has a partner. -/
theorem optionRel_iff {α β : Type} {R : α → β → Prop} {x : Option α} {y : Option β} :
    Option.Rel R x y ↔ (∀ a, x = some a → ∃ b, y = some b ∧ R a b) ∧
      ∀ b, y = some b → ∃ a, x = some a ∧ R a b := by
  cases x <;> cases y <;> simp

/-- An entry of `A` and an entry of `B` are the same: one that `s` held, or the entries of one
prepared record. -/
def SameEntry (s A B : LogStore Rodeo Spur F64) (e e' : LogEntry Spur F64) : Prop :=
  e = e' ∧ s.Holds e ∨ ∃ p, StoredAs A.interner p e ∧ StoredAs B.interner p e'

/-- Every stream of `A` is in `B`, with the same labels and the same entries in the same order. -/
def Covered (s A B : LogStore Rodeo Spur F64) : Prop :=
  ∀ id stream, A.streams.lookup id = some stream →
    ∃ id' stream', B.streams.lookup id' = some stream' ∧
      labelSet (B.resolveLabels stream'.labels) = labelSet (A.resolveLabels stream.labels) ∧
      List.Forall₂ (SameEntry s A B) stream.entries stream'.entries

/-- The streams of `A` and of `B`, which were made of those of `s`, are the same. -/
def Alike (s A B : LogStore Rodeo Spur F64) : Prop := s.Covered A B ∧ s.Covered B A

omit [LinearOrder Spur] in
theorem SameEntry.symm {s A B : LogStore Rodeo Spur F64} {e e' : LogEntry Spur F64}
    (h : s.SameEntry A B e e') : s.SameEntry B A e' e := by
  rcases h with ⟨rfl, hs⟩ | ⟨p, hA, hB⟩
  · exact .inl ⟨rfl, hs⟩
  · exact .inr ⟨p, hB, hA⟩

omit [LinearOrder Spur] in
/-- Entries that are the same have one time and one number. -/
theorem SameEntry.stamp_eq {s A B : LogStore Rodeo Spur F64} {e e' : LogEntry Spur F64}
    (h : s.SameEntry A B e e') : e.timestampNs = e'.timestampNs ∧ e.ingestSeq = e'.ingestSeq := by
  rcases h with ⟨rfl, -⟩ | ⟨p, hA, hB⟩
  · exact ⟨rfl, rfl⟩
  · exact ⟨hA.timestampNs.trans hB.timestampNs.symm, hA.ingestSeq.trans hB.ingestSeq.symm⟩

theorem covered_iff {s A B : LogStore Rodeo Spur F64} (hA : A.Indexed) (hAs : A.LabelsSorted)
    (hB : B.Indexed) (hBs : B.LabelsSorted) : s.Covered A B ↔
      ∀ labels entries, A.vectorOf labels = some entries →
        ∃ entries', B.vectorOf labels = some entries' ∧
          List.Forall₂ (SameEntry s A B) entries entries' := by
  constructor
  · intro h labels entries hvector
    obtain ⟨id, stream, hst, hlabels, rfl⟩ := (hA.vectorOf_eq_some_iff hAs).mp hvector
    obtain ⟨id', stream', hst', hsame, hentries⟩ := h id stream hst
    refine ⟨stream'.entries, ?_, hentries⟩
    exact (hB.vectorOf_eq_some_iff hBs).mpr ⟨id', stream', hst', hsame.trans hlabels, rfl⟩
  · intro h id stream hst
    have hvector : A.vectorOf (A.resolveLabels stream.labels) = some stream.entries :=
      (hA.vectorOf_eq_some_iff hAs).mpr ⟨id, stream, hst, rfl, rfl⟩
    obtain ⟨entries', hvector', hentries⟩ := h _ _ hvector
    obtain ⟨id', stream', hst', hlabels, rfl⟩ := (hB.vectorOf_eq_some_iff hBs).mp hvector'
    exact ⟨id', stream', hst', hlabels, hentries⟩

/-- **Two stores are alike when they hold the same under every label set.** -/
theorem alike_iff {s A B : LogStore Rodeo Spur F64} (hA : A.Indexed) (hAs : A.LabelsSorted)
    (hB : B.Indexed) (hBs : B.LabelsSorted) : s.Alike A B ↔
      ∀ labels, Option.Rel (List.Forall₂ (SameEntry s A B)) (A.vectorOf labels)
        (B.vectorOf labels) := by
  have hflip : ∀ entries entries', List.Forall₂ (SameEntry s B A) entries' entries ↔
      List.Forall₂ (SameEntry s A B) entries entries' := by
    intro entries entries'
    exact ⟨fun h => List.Forall₂.flip (h.imp fun _ _ => SameEntry.symm),
      fun h => List.Forall₂.flip (h.imp fun _ _ => SameEntry.symm)⟩
  rw [Alike, covered_iff hA hAs hB hBs, covered_iff hB hBs hA hAs, ← forall_and]
  refine forall_congr' fun labels => ?_
  simp only [hflip]
  exact optionRel_iff.symm

/-- The time stamp and the number of a stored entry. -/
def stamp (e : LogEntry Spur F64) : ℤ × ℕ := (e.timestampNs, e.ingestSeq)

omit [LinearOrder Spur] in
theorem map_stamp {r : Rodeo} {recs : List (LabelledEntry F64)} {new : List (LogEntry Spur F64)}
    (h : List.Forall₂ (StoredAs r) (recs.map Prod.snd) new) :
    new.map stamp = recs.map fun r => (r.2.timestampNs, r.2.ingestSeq) := by
  have hmap : (recs.map Prod.snd).map (fun p => (p.timestampNs, p.ingestSeq)) = new.map stamp :=
    h.map_eq fun hp => Prod.ext hp.timestampNs.symm hp.ingestSeq.symm
  rw [← hmap, List.map_map]
  rfl

omit [LinearOrder Spur] in
/-- **The same records, in one order up to ties.** Two lists of records, appended to what a stream
held, leave the same entries exactly when they sort to the same list. -/
theorem forall₂_sameEntry_iff {s A B : LogStore Rodeo Spur F64}
    {old new new' : List (LogEntry Spur F64)} {recs recs' : List (LabelledEntry F64)}
    (hold : old.SortedBy timestamp)
    (hheld : ∀ e ∈ old, s.Holds e)
    (hnew : List.Forall₂ (StoredAs A.interner) (recs.map Prod.snd) new)
    (hnew' : List.Forall₂ (StoredAs B.interner) (recs'.map Prod.snd) new')
    (hinj : ∀ r ∈ recs, ∀ r' ∈ recs', r.2.ingestSeq = r'.2.ingestSeq → r = r') :
    List.Forall₂ (SameEntry s A B) (LabelStore.appendBatch old new)
        (LabelStore.appendBatch old new') ↔
      (recs.sortByKey fun r => r.2.timestampNs) = recs'.sortByKey fun r => r.2.timestampNs := by
  rw [LabelStore.appendBatch_eq hold, LabelStore.appendBatch_eq hold]
  constructor
  · intro h
    have hall : ((old ++ new).map stamp).sortByKey Prod.fst =
        ((old ++ new').map stamp).sortByKey Prod.fst := by
      rw [List.sortByKey_map, List.sortByKey_map]
      exact h.map_eq fun he => Prod.ext he.stamp_eq.1 he.stamp_eq.2
    -- what the stream held before comes first in both, at every time
    have hnews : (new.map stamp).sortByKey Prod.fst = (new'.map stamp).sortByKey Prod.fst := by
      refine List.sortByKey_eq_iff.mpr fun t => ?_
      have ht := List.sortByKey_eq_iff.mp hall t
      rw [List.map_append, List.map_append, List.filter_append, List.filter_append] at ht
      exact List.append_cancel_left ht
    rw [map_stamp hnew, map_stamp hnew', List.sortByKey_map, List.sortByKey_map] at hnews
    refine List.eq_of_map_eq hnews fun r hr r' hr' heq => ?_
    exact hinj r (List.mem_sortByKey.mp hr) r' (List.mem_sortByKey.mp hr') (Prod.mk.inj heq).2
  · intro h
    have hprepared : (recs.map Prod.snd).sortByKey PreparedLogEntry.timestampNs =
        (recs'.map Prod.snd).sortByKey PreparedLogEntry.timestampNs := by
      rw [List.sortByKey_map, List.sortByKey_map]
      exact congrArg (List.map Prod.snd) h
    have hsorted : List.Forall₂ (StoredAs A.interner)
        ((recs.map Prod.snd).sortByKey PreparedLogEntry.timestampNs) (new.sortByKey timestamp) :=
      List.forall₂_sortByKey (fun hp => hp.timestampNs.symm) hnew
    have hsorted' : List.Forall₂ (StoredAs B.interner)
        ((recs'.map Prod.snd).sortByKey PreparedLogEntry.timestampNs) (new'.sortByKey timestamp) :=
      List.forall₂_sortByKey (fun hp => hp.timestampNs.symm) hnew'
    rw [← hprepared] at hsorted'
    have hboth : List.Forall₂ (SameEntry s A B) (new.sortByKey timestamp)
        (new'.sortByKey timestamp) := hsorted.of_common (fun hA hB => .inr ⟨_, hA, hB⟩) hsorted'
    have hheld : List.Forall₂ (SameEntry s A B) old old :=
      List.forall₂_same.mpr fun e he => .inl ⟨rfl, hheld e he⟩
    rw [← List.sortByKey_append_sortByKey timestamp old new,
      ← List.sortByKey_append_sortByKey timestamp old new']
    exact List.forall₂_sortByKey (fun he => he.stamp_eq.1) (List.rel_append hheld hboth)

theorem holds_vectorOf {s : LogStore Rodeo Spur F64} (h : s.Invariant)
    {labels : List (String × String)} {e : LogEntry Spur F64}
    (he : e ∈ (s.vectorOf labels).getD []) : s.Holds e := by
  cases hv : s.vectorOf labels with
  | none => rw [hv] at he; exact absurd he List.not_mem_nil
  | some entries =>
    rw [hv] at he
    obtain ⟨id, hst⟩ := h.toIndexed.contents_eq_some_iff.mp hv
    exact ⟨id, _, hst, he⟩

theorem labelsSorted_ingestBatches {s : LogStore Rodeo Spur F64} (h : s.LabelsSorted)
    (batches : List (LogBatch F64)) : (s.ingestBatches batches).LabelsSorted := by
  induction batches generalizing s with
  | nil => exact h
  | cons batch batches ih =>
    have hone : (s.ingestBatch batch).LabelsSorted := by
      rw [ingestBatch, toLabelStore_ingestStream]
      exact LabelStore.LabelsSorted.ingest (s := (s.internBatch batch).toLabelStore) h _ _
    exact ih hone

/-- **Grouping shows exactly in ties** that the order of the groups breaks. -/
theorem alike_ingestBatches_iff {s : LogStore Rodeo Spur F64} (h : s.Invariant)
    (hsorted : s.LabelsSorted) {recs : List (LabelledEntry F64)}
    (hroom : s.nextStreamId + recs.length ≤ u64Max)
    (hnodup : (recs.map fun r => r.2.ingestSeq).Nodup) :
    s.Alike (s.ingestBatches (grouped recs)) (s.ingestBatches (singly recs)) ↔
      InOrderSeen recs := by
  have hroomA : s.nextStreamId + (grouped recs).length ≤ u64Max :=
    hroom.trans' (Nat.add_le_add_left (length_grouped_le recs) _)
  have hroomB : s.nextStreamId + (singly recs).length ≤ u64Max := by
    rwa [singly, List.length_map]
  rw [alike_iff (room_ingestBatches h hroomA).toIndexed (labelsSorted_ingestBatches hsorted _)
    (room_ingestBatches h hroomB).toIndexed (labelsSorted_ingestBatches hsorted _),
    inOrderSeen_iff]
  refine forall_congr' fun labels => ?_
  obtain ⟨new, hnew, hA⟩ := vectorOf_ingestBatches h hroomA labels
  obtain ⟨new', hnew', hB⟩ := vectorOf_ingestBatches h hroomB labels
  rw [entriesFor_grouped] at hnew
  rw [entriesFor_singly] at hnew'
  simp only [exists_mem_grouped, exists_mem_singly] at hA hB
  rw [hA, hB]
  by_cases hrecs : recordsOf recs labels = []
  · rw [if_neg (not_not.mpr hrecs), if_neg (not_not.mpr hrecs), hrecs]
    refine iff_of_true ?_ rfl
    cases hv : s.vectorOf labels with
    | none => exact .none
    | some entries =>
      have hget : (s.vectorOf labels).getD [] = entries := by rw [hv, Option.getD_some]
      exact .some (List.forall₂_same.mpr fun e he => .inl ⟨rfl, holds_vectorOf h (hget ▸ he)⟩)
  · rw [if_pos hrecs, if_pos hrecs, Option.rel_some_some]
    refine forall₂_sameEntry_iff (sortedBy_vectorOf h labels) (fun e => holds_vectorOf h) hnew hnew'
      fun r hr r' hr' => List.inj_on_of_nodup_map hnodup ?_ ?_
    · exact (List.mem_filter.mp (List.mem_sortByKey.mp hr)).1
    · exact (List.mem_filter.mp hr').1

/-! ### Requests -/

section Requests

variable [Float64 F64] [SerdeJson F64]

omit [LinearOrder Spur] [Interner Rodeo Spur] in
/-- The records of a request, prepared. -/
def preparedRecords (seqs clockNs : ℕ → ℕ) (request : ExportLogsServiceRequest F64) :
    List (LabelledEntry F64) :=
  (logRecords request).mapIdx fun n r => (r.1, logEntry (seqs n) (clockNs n) r.2)

/-- The records of a request, each in an ingest of its own. -/
def ingestOneByOne (s : LogStore Rodeo Spur F64) (seqs clockNs : ℕ → ℕ)
    (request : ExportLogsServiceRequest F64) : LogStore Rodeo Spur F64 :=
  (preparedRecords seqs clockNs request).foldl (fun s r => s.ingestBatch ⟨r.1, [r.2]⟩) s

/-- **When grouping does not show.** After any run, a request leaves every stream with the labels
and the entries that its records leave one by one, exactly when no two of its records with one label
set and one time stamp have label lists that came up the other way round. -/
theorem alike_ingestLogs_iff (ops : List (LogOp Spur F64)) {seqs : ℕ → ℕ}
    (hseqs : Function.Injective seqs) (clockNs : ℕ → ℕ) (request : ExportLogsServiceRequest F64)
    (hops : (new : LogStore Rodeo Spur F64).idsCreated ops ≤ u64Max)
    (hroom : (Run.exec apply (new : LogStore Rodeo Spur F64) ops).nextStreamId +
      (logRecords request).length ≤ u64Max) :
    let s := Run.exec apply (new : LogStore Rodeo Spur F64) ops
    s.Alike (s.ingestLogs seqs clockNs request) (s.ingestOneByOne seqs clockNs request) ↔
      InOrderSeen (preparedRecords seqs clockNs request) := by
  intro s
  have h : s.Invariant := invariant_exec LabelStore.invariant_new (by
    change 0 + _ ≤ _
    rwa [Nat.zero_add])
  have hnodup : ((preparedRecords seqs clockNs request).map fun r => r.2.ingestSeq).Nodup := by
    refine List.pairwise_iff_getElem.mpr fun i j hi hj hij heq => ?_
    simp only [preparedRecords, List.getElem_map, List.getElem_mapIdx, logEntry] at heq
    have := hseqs heq
    omega
  have hlength : (preparedRecords seqs clockNs request).length = (logRecords request).length :=
    List.length_mapIdx
  have hgrouped : s.ingestLogs seqs clockNs request =
      s.ingestBatches (grouped (preparedRecords seqs clockNs request)) := rfl
  have hsingly : s.ingestOneByOne seqs clockNs request =
      s.ingestBatches (singly (preparedRecords seqs clockNs request)) := List.foldl_map.symm
  rw [hgrouped, hsingly]
  exact alike_ingestBatches_iff h (labelsSorted_exec ops) (hlength ▸ hroom) hnodup

omit [LinearOrder Spur] [Interner Rodeo Spur] [Float64 F64] [SerdeJson F64] in
/-- Three records of one label set at three times, the label list of the second one in another
order. -/
def permutedResources (t₁ t₂ t₃ : ℕ) : ExportLogsServiceRequest ℤ :=
  let app : KeyValue ℤ := ⟨"app", some (.stringValue "a")⟩
  let env : KeyValue ℤ := ⟨"env", some (.stringValue "b")⟩
  let recordAt (t : ℕ) : LogRecord ℤ := ⟨t, 9, "", none, [], [], []⟩
  [⟨some ⟨[app, env]⟩, [[recordAt t₁]]⟩, ⟨some ⟨[env, app]⟩, [[recordAt t₂]]⟩,
    ⟨some ⟨[app, env]⟩, [[recordAt t₃]]⟩]

theorem alike_ingestLogs_permutedResources :
    (new : LogStore VecRodeo ℕ ℤ).Alike
      (new.ingestLogs id (fun _ => 0) (permutedResources 1 2 3))
      (new.ingestOneByOne id (fun _ => 0) (permutedResources 1 2 3)) :=
  (alike_ingestLogs_iff [] Function.injective_id (fun _ => 0) (permutedResources 1 2 3)
    (by decide) (by decide)).mpr (by decide)

/-- **Grouping shows** when the three records have one time: the third one comes before the
second. -/
theorem not_alike_permutedResources :
    ¬ (new : LogStore VecRodeo ℕ ℤ).Alike
      (new.ingestLogs id (fun _ => 0) (permutedResources 1 1 1))
      (new.ingestOneByOne id (fun _ => 0) (permutedResources 1 1 1)) := by
  have hsorted : (new : LogStore VecRodeo ℕ ℤ).LabelsSorted := labelsSorted_exec []
  intro h
  have hseen : InOrderSeen (preparedRecords id (fun _ => 0) (permutedResources 1 1 1)) :=
    (alike_ingestBatches_iff LabelStore.invariant_new hsorted (by decide) (by decide)).mp h
  exact absurd hseen (by decide)

end Requests

end LogStore

end Aniani
