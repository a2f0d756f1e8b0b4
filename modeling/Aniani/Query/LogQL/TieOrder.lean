import Aniani.ForMathlib.BinaryHeap
import Aniani.ForMathlib.Outlasts
import Aniani.Query.LogQL.Newest

/-!
# Entries that share a timestamp

The store keeps entries with one timestamp in the order they were ingested in, and so does the
evaluation without a limit. With a limit the entries pass through a heap, which is iterated in an
order of its own, and are then sorted by time alone: among entries of one stream that share a
timestamp the order of the heap is left. It shows as soon as two of them that are kept are reported
differently.

## Main definitions

* `Env.cut` — the unlimited result, less the entries that are left out
* `Env.KeepsOrder`, `Env.TiesAgree`
* `InOrder` — streams with entries in the order of others

## Main results

* `keepsOrder_iff_tiesAgree` — when every heap gives the order of the unlimited evaluation
* `not_inOrder_fiveLines` — the binary heap on five lines, three of them at one time
-/

namespace Aniani

namespace LogQL

variable {Rodeo Spur F64 : Type} [Interner Rodeo Spur] [FloatOps F64]

/-! ### Orders -/

/-- Streams with entries of others, in the order they have there. -/
def InOrder (all newest : List StreamResult) : Prop :=
  ∃ streams : List StreamResult, streams.Subperm all ∧
    List.Forall₂ (fun stream full => stream.labels = full.labels ∧
      stream.entries.Sublist full.entries) newest streams

section Orders

variable (env : Env Rodeo Spur F64) (stages : List (PipelineStage F64)) (startNs endNs : ℤ)
  (limit : ℕ) (streamIds : List ℕ)

/-- What is reported of matching entries, filed under the streams and in the order they come in. -/
def Env.file (ms : List (ℕ × LogEntry Spur F64)) : List StreamResult :=
  (List.sortedGroups id Prod.fst ms).map fun group =>
    ⟨env.streamLabels group.1, group.2.map fun m => env.resolveEntry m.2⟩

/-- The matching entries that are not left out, stream by stream, in the order of the unlimited
evaluation. -/
def Env.cut : List StreamResult :=
  env.file ((env.matching stages startNs endNs streamIds).outlasting limit timeOf)

/-- If two entries are of one stream and share a timestamp, they are reported alike. -/
def Env.TiedAlike (m m' : ℕ × LogEntry Spur F64) : Prop :=
  m.1 = m'.1 → timeOf m = timeOf m' → env.resolveEntry m.2 = env.resolveEntry m'.2

/-- Entries that tie and are not left out are reported alike. -/
def Env.TiesAgree : Prop :=
  (env.matching stages startNs endNs streamIds).splits.Pairwise fun s t =>
    s.Outlasts limit timeOf → t.Outlasts limit timeOf → env.TiedAlike s.elem t.elem

end Orders

section Cut

variable {env : Env Rodeo Spur F64} {stages : List (PipelineStage F64)} {startNs endNs : ℤ}
  {limit : ℕ} {streamIds : List ℕ}

theorem tiesAgree_iff :
    env.TiesAgree stages startNs endNs limit streamIds ↔
      ((env.matching stages startNs endNs streamIds).topK limit timeOf).Pairwise env.TiedAlike := by
  rw [List.pairwise_topK_iff]
  rfl

/-- The streams of what is kept are in the order of the unlimited evaluation. -/
theorem inOrder_cut (hn : streamIds.Nodup) :
    InOrder ((streamIds.map (env.streamResult stages startNs endNs)).filter
      fun result => !result.entries.isEmpty) (env.cut stages startNs endNs limit streamIds) := by
  rw [Env.cut, ← List.topK_eq]
  have hheld := List.topK_sublist limit timeOf (env.matching stages startNs endNs streamIds)
  refine ⟨(List.sortedKeys id Prod.fst ((env.matching stages startNs endNs streamIds).topK limit
    timeOf)).map (env.streamResult stages startNs endNs),
    map_streamResult_subperm List.sortedKeys_nodup fun sid hsid => ?_, ?_⟩
  · obtain ⟨m, hm, rfl⟩ := List.mem_sortedKeys.mp hsid
    exact ⟨m, hheld.subset hm, rfl⟩
  · rw [Env.file, List.sortedGroups, List.map_map, List.forall₂_map_left_iff,
      List.forall₂_map_right_iff, List.forall₂_same]
    exact fun sid hsid => ⟨rfl, map_filter_sublist hn hheld (List.mem_sortedKeys.mp hsid)⟩

/-- What a heap gives of one stream, against what is kept of it. -/
theorem regroup_eq_file_iff {items : List HeapItem} {held : List (ℕ × LogEntry Spur F64)}
    (hsids : ∀ sid, (∃ item ∈ items, item.sid = sid) ↔ ∃ m ∈ held, m.1 = sid) :
    env.regroup items = env.file held ↔ ∀ sid,
      ((items.filter fun item => item.sid == sid).map HeapItem.entry).sortByKey
          ResolvedEntry.timestampNs =
        (held.filter fun m => m.1 == sid).map fun m => env.resolveEntry m.2 := by
  have hkeys : List.sortedKeys id HeapItem.sid items = List.sortedKeys id Prod.fst held :=
    List.sortedKeys_sorted.eq_of_mem_iff Function.injective_id List.sortedKeys_sorted
      List.sortedKeys_nodup List.sortedKeys_nodup fun sid => by
        rw [List.mem_sortedKeys, List.mem_sortedKeys, hsids]
  rw [Env.regroup, Env.file, List.sortedGroups, List.sortedGroups, hkeys, List.map_map,
    List.map_map, List.map_inj_left]
  constructor
  · intro heq sid
    by_cases hsid : ∃ m ∈ held, m.1 = sid
    · exact (StreamResult.mk.inj (heq sid (List.mem_sortedKeys.mpr hsid))).2
    · have hitems : items.filter (fun item => item.sid == sid) = [] :=
        List.filter_eq_nil_iff.mpr fun item hitem heq =>
          hsid ((hsids sid).mp ⟨item, hitem, by simpa using heq⟩)
      have hheld : held.filter (fun m => m.1 == sid) = [] :=
        List.filter_eq_nil_iff.mpr fun m hm heq => hsid ⟨m, hm, by simpa using heq⟩
      rw [hitems, hheld]
      rfl
  · intro heq sid _
    exact congrArg (StreamResult.mk (env.streamLabels sid)) (heq sid)

/-- The matching entries of a stream of a sorted store come in the order of time. -/
theorem sortedBy_passing (h : env.store.Sorted) (sid : ℕ) :
    (env.passing stages startNs endNs sid).SortedBy LogEntry.timestampNs := by
  have hread : ((env.store.getEntries sid startNs endNs).getD []).SortedBy LogEntry.timestampNs := by
    rw [LogStore.getEntries, LabelStore.getRange_of_sorted h]
    split
    · exact List.sortedBy_nil _
    · exact (LabelStore.sortedBy_entriesOf _ h sid).sublist List.filter_sublist
  exact hread.sublist List.filter_sublist

theorem sortedBy_map_filter (h : env.store.Sorted) (hn : streamIds.Nodup)
    {held : List (ℕ × LogEntry Spur F64)}
    (hheld : held.Sublist (env.matching stages startNs endNs streamIds)) (sid : ℕ) :
    ((held.filter fun m => m.1 == sid).map fun m => env.resolveEntry m.2).SortedBy
      ResolvedEntry.timestampNs := by
  by_cases hsid : ∃ m ∈ held, m.1 = sid
  · refine List.SortedBy.sublist ?_ (map_filter_sublist hn hheld hsid)
    exact List.pairwise_map.mpr (sortedBy_passing h sid)
  · rw [List.filter_eq_nil_iff.mpr fun m hm heq => hsid ⟨m, hm, by simpa using heq⟩]
    exact List.sortedBy_nil _

/-- Entries that agree where they tie leave a heap in one order only. -/
theorem regroup_eq_cut (h : env.store.Sorted) (hn : streamIds.Nodup)
    (hties : env.TiesAgree stages startNs endNs limit streamIds) (H : MinHeap HeapItem)
    (hH : H.Lawful HeapItem.key) :
    env.regroup (H.toList ((env.matching stages startNs endNs streamIds).foldl
      (offerMatch H env limit) (H.empty, 0)).1) =
      env.cut stages startNs endNs limit streamIds := by
  have hitems := fun {b} => exists_items_perm env (β := b) H hH limit
    (env.matching stages startNs endNs streamIds)
  generalize H.toList ((env.matching stages startNs endNs streamIds).foldl
    (offerMatch H env limit) (H.empty, 0)).1 = items at hitems ⊢
  rw [Env.cut, ← List.topK_eq]
  rw [tiesAgree_iff] at hties
  have hheld := List.topK_sublist limit timeOf (env.matching stages startNs endNs streamIds)
  generalize (env.matching stages startNs endNs streamIds).topK limit timeOf = held at *
  have hsymm : Std.Symm env.TiedAlike :=
    ⟨fun m m' hmm hsid htime => (hmm hsid.symm htime.symm).symm⟩
  have hagree := hties.forall_of_forall fun m _ _ _ => rfl
  rw [regroup_eq_file_iff]
  · intro sid
    have hperm := hitems HeapItem.entry (fun m => env.resolveEntry m.2) (fun _ _ => rfl)
      fun k => k == sid
    refine (List.sortedBy_sortByKey _ _).eq_of_perm (sortedBy_map_filter h hn hheld sid)
      ((List.sortByKey_perm _ _).trans hperm) fun a ha b hb htime => ?_
    rw [List.mem_sortByKey, hperm.mem_iff, List.mem_map] at ha hb
    obtain ⟨m, hm, rfl⟩ := ha
    obtain ⟨m', hm', rfl⟩ := hb
    obtain ⟨hm, hsid⟩ := List.mem_filter.mp hm
    obtain ⟨hm', hsid'⟩ := List.mem_filter.mp hm'
    exact hagree hm hm' ((beq_iff_eq.mp hsid).trans (beq_iff_eq.mp hsid').symm) htime
  · intro sid
    have hsids := hitems HeapItem.sid Prod.fst (fun _ _ => rfl) fun _ => true
    simp only [List.filter_true] at hsids
    rw [← List.mem_map, ← List.mem_map, hsids.mem_iff]

/-- The items that satisfy a predicate, before the others. -/
def front (p : HeapItem → Bool) (items : List HeapItem) : List HeapItem :=
  items.filter p ++ items.filter fun item => !p item

/-- A heap that is iterated with one report first gives it first among those of its time. -/
theorem head?_ties {m : ℕ × LogEntry Spur F64}
    (hm : m ∈ (env.matching stages startNs endNs streamIds).topK limit timeOf)
    (hcut : ∀ H : MinHeap HeapItem, H.Lawful HeapItem.key →
      env.regroup (H.toList ((env.matching stages startNs endNs streamIds).foldl
        (offerMatch H env limit) (H.empty, 0)).1) =
        env.cut stages startNs endNs limit streamIds) :
    ((((((env.matching stages startNs endNs streamIds).topK limit timeOf).filter
      fun m' => m'.1 == m.1).map fun m' => env.resolveEntry m'.2).filter
        fun e => decide (e.timestampNs = timeOf m)).head?) = some (env.resolveEntry m.2) := by
  set p : HeapItem → Bool := fun item =>
    decide (item.sid = m.1 ∧ item.entry = env.resolveEntry m.2) with hp
  have hH : (MinHeap.ofList HeapItem.key (front p)).Lawful HeapItem.key :=
    MinHeap.lawful_ofList _ fun items => List.filter_append_perm _ _
  obtain ⟨items, hfront⟩ : ∃ items : List HeapItem,
      (MinHeap.ofList HeapItem.key (front p)).toList
        ((env.matching stages startNs endNs streamIds).foldl
          (offerMatch (MinHeap.ofList HeapItem.key (front p)) env limit)
            ((MinHeap.ofList HeapItem.key (front p)).empty, 0)).1 = front p items := ⟨_, rfl⟩
  have hitems := exists_items_perm env _ hH limit (env.matching stages startNs endNs streamIds)
    (fun item => (item.sid, item.entry)) (fun m => (m.1, env.resolveEntry m.2)) (fun _ _ => rfl)
    fun _ => true
  have hgroups := hcut _ hH
  rw [hfront] at hitems hgroups
  rw [Env.cut, ← List.topK_eq] at hgroups
  simp only [List.filter_true] at hitems
  generalize (env.matching stages startNs endNs streamIds).topK limit timeOf = held at *
  have hsids : ∀ sid, (∃ item ∈ front p items, item.sid = sid) ↔ ∃ m ∈ held, m.1 = sid := by
    intro sid
    have hmap := hitems.map Prod.fst
    rw [List.map_map, List.map_map] at hmap
    exact List.mem_map.symm.trans (hmap.mem_iff.trans List.mem_map)
  -- the report is first in the heap, and so among those of its stream and time
  obtain ⟨first, rest, hfirst⟩ : ∃ first rest, items.filter p = first :: rest := by
    obtain ⟨item, hitem, heq⟩ := List.mem_map.mp (hitems.mem_iff.mpr (List.mem_map_of_mem hm))
    have hpitem : p item = true := decide_eq_true ⟨congrArg Prod.fst heq, congrArg Prod.snd heq⟩
    exact List.exists_cons_of_ne_nil (List.ne_nil_of_mem (List.mem_filter.mpr
      ⟨(List.filter_append_perm _ _).mem_iff.mp hitem, hpitem⟩))
  have hmem : first ∈ items.filter p := by
    rw [hfirst]
    exact List.mem_cons_self
  have hpfirst : first.sid = m.1 ∧ first.entry = env.resolveEntry m.2 :=
    of_decide_eq_true (List.mem_filter.mp hmem).2
  have hgroup := congrArg (List.filter fun e => decide (e.timestampNs = timeOf m))
    ((regroup_eq_file_iff hsids).mp hgroups m.1)
  rw [List.filter_sortByKey] at hgroup
  have htime : (env.resolveEntry m.2).timestampNs = timeOf m := rfl
  rw [← hgroup, front, hfirst, List.cons_append, List.filter_cons_of_pos (by simp [hpfirst.1]),
    List.map_cons, hpfirst.2, List.filter_cons, if_pos (decide_eq_true htime), List.head?_cons]

end Cut

/-! ### Every heap -/

variable [LinearOrder Spur]

/-- **The limited evaluation keeps the order of the unlimited one**: what it reports is the
unlimited result, less the entries that are left out. -/
def Env.KeepsOrder (H : MinHeap HeapItem) (env : Env Rodeo Spur F64) (matchers : List LogQLMatcher)
    (stages : List (PipelineStage F64)) (startNs endNs : ℤ) (limit : ℕ) : Prop :=
  ∀ newest, evaluateStreamQuery H env matchers stages startNs endNs (some limit) = some newest →
    newest = env.cut stages startNs endNs limit (env.queryStreams matchers)

theorem Env.KeepsOrder.inOrder {H : MinHeap HeapItem} {env : Env Rodeo Spur F64}
    {matchers : List LogQLMatcher} {stages : List (PipelineStage F64)} {startNs endNs : ℤ}
    {limit : ℕ} (hlimit : 1 ≤ limit)
    (h : Env.KeepsOrder H env matchers stages startNs endNs limit) :
    Option.Rel InOrder (evaluateStreamQuery H env matchers stages startNs endNs none)
      (evaluateStreamQuery H env matchers stages startNs endNs (some limit)) := by
  rw [KeepsOrder, evaluateStreamQuery_limit H env matchers stages startNs endNs hlimit] at h
  rw [evaluateStreamQuery_limit H env matchers stages startNs endNs hlimit, evaluateStreamQuery]
  by_cases hreads : env.Reads startNs endNs (env.queryStreams matchers)
  · rw [evaluateLimited_of_reads H _ hreads] at h ⊢
    rw [evaluateUnlimited_of_reads hreads, h _ rfl]
    exact Option.Rel.some (inOrder_cut (LabelStore.nodup_select _ _ _ _))
  · obtain ⟨hall, hnewest⟩ := evaluate_of_not_reads H stages limit hreads
    rw [hall, hnewest]
    exact Option.Rel.none

/-- **Every heap gives the order of the unlimited evaluation exactly when entries that tie are
reported alike**, or a stream cannot be read. -/
theorem keepsOrder_iff_tiesAgree (ops : List (LogOp Spur F64)) (it : IterOrder ℕ)
    (itValues : IterOrder Spur) (regexNew : String → Option Regex) (json : JsonCrate F64)
    (matchers : List LogQLMatcher) (stages : List (PipelineStage F64)) (startNs endNs : ℤ)
    {limit : ℕ} (hlimit : 1 ≤ limit) :
    let env : Env Rodeo Spur F64 :=
      ⟨Run.exec LogStore.apply LogStore.new ops, it, itValues, regexNew, json⟩
    ((∀ H : MinHeap HeapItem, H.Lawful HeapItem.key →
      Env.KeepsOrder H env matchers stages startNs endNs limit) ↔
        (env.Reads startNs endNs (env.queryStreams matchers) →
          env.TiesAgree stages startNs endNs limit (env.queryStreams matchers))) ∧
    ∀ H, Env.KeepsOrder H env matchers stages startNs endNs limit →
      Option.Rel InOrder (evaluateStreamQuery H env matchers stages startNs endNs none)
        (evaluateStreamQuery H env matchers stages startNs endNs (some limit)) := by
  intro env
  have hsorted : env.store.Sorted := LogStore.sorted_exec ops
  have hn : (env.queryStreams matchers).Nodup := LabelStore.nodup_select _ _ _ _
  refine ⟨?_, fun H h => h.inOrder hlimit⟩
  have hkeeps : ∀ H, Env.KeepsOrder H env matchers stages startNs endNs limit ↔
      (env.Reads startNs endNs (env.queryStreams matchers) →
        env.regroup (H.toList ((env.matching stages startNs endNs
          (env.queryStreams matchers)).foldl (offerMatch H env limit) (H.empty, 0)).1) =
            env.cut stages startNs endNs limit (env.queryStreams matchers)) := by
    intro H
    rw [Env.KeepsOrder, evaluateStreamQuery_limit H env matchers stages startNs endNs hlimit]
    by_cases hreads : env.Reads startNs endNs (env.queryStreams matchers)
    · rw [evaluateLimited_of_reads H _ hreads]
      simp [hreads]
    · rw [(evaluate_of_not_reads H stages limit hreads).2]
      simp [hreads]
  simp only [hkeeps]
  constructor
  · intro hcut hreads
    rw [tiesAgree_iff]
    refine List.pairwise_of_forall_mem_list fun m hm m' hm' hsid htime => ?_
    have hhead := head?_ties hm fun H hH => hcut H hH hreads
    have hhead' := head?_ties hm' fun H hH => hcut H hH hreads
    rw [hsid, htime] at hhead
    exact Option.some.inj (hhead.symm.trans hhead')
  · exact fun hties H hH hreads => regroup_eq_cut hsorted hn (hties hreads) H hH

/-- Five lines, three of them at one time. -/
def fiveLines : Env VecRodeo ℕ ℤ := Env.ofOps [.ingestStream [("service", "a")]
  [plainEntry 1 "a", plainEntry 2 "b", plainEntry 2 "c", plainEntry 2 "d", plainEntry 3 "e"]]

/-- On the five lines the two conditions are the same. -/
theorem keepsOrder_iff_tiesAgree_fiveLines :
    ((∀ H : MinHeap HeapItem, H.Lawful HeapItem.key →
      Env.KeepsOrder H fiveLines [] [] 0 9 4) ↔
        (fiveLines.Reads 0 9 (fiveLines.queryStreams []) →
          fiveLines.TiesAgree [] 0 9 4 (fiveLines.queryStreams []))) ∧
    ∀ H, Env.KeepsOrder H fiveLines [] [] 0 9 4 →
      Option.Rel InOrder (evaluateStreamQuery H fiveLines [] [] 0 9 none)
        (evaluateStreamQuery H fiveLines [] [] 0 9 (some 4)) :=
  keepsOrder_iff_tiesAgree _ _ _ _ _ _ _ _ _ (by decide)

/-- **Of five lines the newest four come as `b`, `d`, `c`, `e`** out of the binary heap. -/
theorem not_inOrder_fiveLines :
    ¬ Option.Rel InOrder
      (evaluateStreamQuery (MinHeap.binary HeapItem.key) fiveLines [] [] 0 9 none)
      (evaluateStreamQuery (MinHeap.binary HeapItem.key) fiveLines [] [] 0 9 (some 4)) := by
  have hall : evaluateStreamQuery (MinHeap.binary HeapItem.key) fiveLines [] [] 0 9 none =
      some [⟨[("service", "a")], [⟨1, "a", none, none, []⟩, ⟨2, "b", none, none, []⟩,
        ⟨2, "c", none, none, []⟩, ⟨2, "d", none, none, []⟩, ⟨3, "e", none, none, []⟩]⟩] := by
    decide
  have hnewest : evaluateStreamQuery (MinHeap.binary HeapItem.key) fiveLines [] [] 0 9 (some 4) =
      some [⟨[("service", "a")], [⟨2, "b", none, none, []⟩, ⟨2, "d", none, none, []⟩,
        ⟨2, "c", none, none, []⟩, ⟨3, "e", none, none, []⟩]⟩] := by
    decide
  rw [hall, hnewest]
  rintro ⟨streams, hsub, hstreams⟩
  obtain ⟨full, rfl⟩ : ∃ full, streams = [full] := by
    cases hstreams with
    | cons _ hrest =>
      cases hrest
      exact ⟨_, rfl⟩
  obtain rfl := List.mem_singleton.mp (hsub.subset List.mem_cons_self)
  obtain ⟨⟨-, hentries⟩, -⟩ := List.forall₂_cons.mp hstreams
  exact absurd hentries (by decide)

end LogQL

end Aniani
