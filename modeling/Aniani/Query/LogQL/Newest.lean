import Aniani.ForMathlib.OptionWalk
import Aniani.Query.LogQL.Eval

/-!
# The newest entries

A stream query with a limit keeps the newest of the matching entries. The scan that fills the heap
is described by the list of the matching entries in the order they are scanned in: what the heap
holds after it is `List.topK` of that list, and the streams reported are what it holds, filed under
the streams.

## Main definitions

* `Env.passing`, `Env.matching` — the matching entries of a stream, and of all streams
* `IsNewest` — streams that report the newest entries of others

## Main results

* `tracks_scan` — what the heap holds after the scan
* `evaluateStreamQuery_isNewest` — the limited evaluation against the unlimited one
-/

namespace Aniani

namespace LogQL

variable {Rodeo Spur F64 : Type} [Interner Rodeo Spur] [FloatOps F64]

/-! ### The scan -/

section Scan

variable (H : MinHeap HeapItem) (env : Env Rodeo Spur F64) (stages : List (PipelineStage F64))
  (startNs endNs : ℤ) (limit : ℕ)

/-- The entries of a stream in the window that pass the stages. -/
def Env.passing (sid : ℕ) : List (LogEntry Spur F64) :=
  ((env.store.getEntries sid startNs endNs).getD []).filter fun e =>
    applyStages env.json e.line stages (env.streamLabels sid)

/-- The matching entries of the streams, in the order they are scanned in. -/
def Env.matching (streamIds : List ℕ) : List (ℕ × LogEntry Spur F64) :=
  streamIds.flatMap fun sid => (env.passing stages startNs endNs sid).map fun e => (sid, e)

/-- Every stream can be read. -/
def Env.Reads (streamIds : List ℕ) : Prop :=
  ∀ sid ∈ streamIds, ∃ es, env.store.getEntries sid startNs endNs = some es

/-- The report of a stream without a limit. -/
def Env.streamResult (sid : ℕ) : StreamResult :=
  ⟨env.streamLabels sid, (env.passing stages startNs endNs sid).map env.resolveEntry⟩

/-- An element of the heap for a matching entry. -/
def Env.heapItem (sequence : ℕ) (m : ℕ × LogEntry Spur F64) : HeapItem :=
  ⟨m.2.timestampNs, sequence, m.1, env.resolveEntry m.2⟩

/-- The time of a matching entry. -/
def timeOf (m : ℕ × LogEntry Spur F64) : ℤ := m.2.timestampNs

/-- One matching entry of the scan. -/
def offerMatch (acc : H.Heap × ℕ) (m : ℕ × LogEntry Spur F64) : H.Heap × ℕ :=
  if decide ((H.toList acc.1).length < limit) ||
      (((H.peek acc.1).map fun oldest => decide (oldest.timestampNs < timeOf m)).getD false) then
    (H.push (if (H.toList acc.1).length = limit then H.pop acc.1 else acc.1)
      (env.heapItem acc.2 m), acc.2 + 1)
  else acc

/-- What the heap holds, filed under the streams. -/
def Env.regroup (items : List HeapItem) : List StreamResult :=
  (List.sortedGroups id HeapItem.sid items).map fun group =>
    ⟨env.streamLabels group.1,
      (group.2.map HeapItem.entry).sortByKey ResolvedEntry.timestampNs⟩

variable {env stages startNs endNs}

omit [Interner Rodeo Spur] [FloatOps F64] in
/-- A stream that cannot be read, if there is one. -/
theorem exists_of_not_reads {sids : List ℕ} (h : ¬ env.Reads startNs endNs sids) :
    ∃ sid ∈ sids, env.store.getEntries sid startNs endNs = none := by
  by_contra hnone
  refine h fun sid hsid => Option.ne_none_iff_exists'.mp fun hread => ?_
  exact hnone ⟨sid, hsid, hread⟩

theorem foldl_offerEntry (sid : ℕ) (entries : List (LogEntry Spur F64)) (acc : H.Heap × ℕ) :
    entries.foldl (offerEntry H env stages limit sid) acc =
      ((entries.filter fun e => applyStages env.json e.line stages (env.streamLabels sid)).map
        fun e => (sid, e)).foldl (offerMatch H env limit) acc := by
  rw [List.foldl_map, List.foldl_filter]
  rfl

theorem evaluateUnlimited_of_reads {streamIds : List ℕ} (h : env.Reads startNs endNs streamIds) :
    evaluateUnlimitedStreamQuery env streamIds stages startNs endNs =
      some ((streamIds.map (env.streamResult stages startNs endNs)).filter
        fun result => !result.entries.isEmpty) := by
  have hmap : (streamIds.mapM fun sid => (env.store.getEntries sid startNs endNs).map fun entries =>
        (⟨env.streamLabels sid, (entries.filter fun e => applyStages env.json e.line stages
          (env.streamLabels sid)).map env.resolveEntry⟩ : StreamResult)) =
      some (streamIds.map (env.streamResult stages startNs endNs)) := by
    refine List.mapM_eq_some_map fun sid hsid => ?_
    obtain ⟨es, hes⟩ := h sid hsid
    rw [hes, Env.streamResult, Env.passing, hes]
    rfl
  simp only [evaluateUnlimitedStreamQuery, bind_pure_comp, Option.map_eq_map]
  rw [hmap, Option.map_some]

theorem evaluateLimited_of_reads {streamIds : List ℕ} (h : env.Reads startNs endNs streamIds) :
    evaluateLimitedStreamQuery H env streamIds stages startNs endNs limit =
      some (env.regroup (H.toList ((env.matching stages startNs endNs streamIds).foldl
        (offerMatch H env limit) (H.empty, 0)).1)) := by
  have hfold : streamIds.foldlM (fun acc sid => (env.store.getEntries sid startNs endNs).map
        fun entries => entries.foldl (offerEntry H env stages limit sid) acc) (H.empty, 0) =
      some ((env.matching stages startNs endNs streamIds).foldl (offerMatch H env limit)
        (H.empty, 0)) := by
    rw [Env.matching, List.foldl_flatMap]
    refine List.foldlM_eq_some_foldl (fun acc sid hsid => ?_) _
    obtain ⟨es, hes⟩ := h sid hsid
    rw [hes, Env.passing, hes]
    exact congrArg some (foldl_offerEntry H limit sid es acc)
  simp only [evaluateLimitedStreamQuery, bind_pure_comp, Option.map_eq_map]
  rw [hfold, Option.map_some]
  rfl

variable (stages) in
/-- A stream that cannot be read fails both evaluations. -/
theorem evaluate_of_not_reads {streamIds : List ℕ} (h : ¬ env.Reads startNs endNs streamIds) :
    evaluateUnlimitedStreamQuery env streamIds stages startNs endNs = none ∧
      evaluateLimitedStreamQuery H env streamIds stages startNs endNs limit = none := by
  obtain ⟨sid, hsid, hnone⟩ := exists_of_not_reads h
  constructor
  · simp only [evaluateUnlimitedStreamQuery, bind_pure_comp, Option.map_eq_map]
    rw [List.mapM_eq_none hsid (by rw [hnone]; rfl)]
    rfl
  · simp only [evaluateLimitedStreamQuery, bind_pure_comp, Option.map_eq_map]
    rw [List.foldlM_eq_none hsid fun acc => by rw [hnone]; rfl]
    rfl

/-- **One matching entry keeps the heap what the list says it is.** -/
theorem tracks_offerMatch (hH : H.Lawful HeapItem.key) {acc : H.Heap × ℕ}
    {held : List (ℕ × LogEntry Spur F64)} (h : H.Tracks env.heapItem acc held)
    (hlen : held.length ≤ limit) (m : ℕ × LogEntry Spur F64) :
    H.Tracks env.heapItem (offerMatch H env limit acc m) (List.topKStep limit timeOf held m) := by
  have hkey : ∀ n m, HeapItem.key (env.heapItem n m) = toLex (timeOf m, n) := fun _ _ => rfl
  rw [offerMatch, List.topKStep, h.length_toList]
  by_cases hroom : held.length < limit
  · rw [if_pos (by simp [hroom]), if_pos hroom, if_neg hroom.ne]
    exact h.push hH m
  · have hfull : held.length = limit := by omega
    have hany : (((H.peek acc.1).map fun oldest => decide (oldest.timestampNs < timeOf m)).getD
        false) = held.any fun c => decide (timeOf c < timeOf m) := by
      rw [← h.any_peek hkey hH]
      cases H.peek acc.1 <;> rfl
    rw [hany, if_neg hroom, decide_eq_false hroom, Bool.false_or, if_pos hfull]
    split
    · next hlt =>
      obtain ⟨c, hc, -⟩ := List.any_eq_true.mp hlt
      exact (h.pop hkey hH (List.ne_nil_of_mem hc)).push hH m
    · exact h

variable (env) in
/-- **What the heap holds after the scan.** -/
theorem tracks_scan (hH : H.Lawful HeapItem.key) (matches' : List (ℕ × LogEntry Spur F64)) :
    H.Tracks env.heapItem (matches'.foldl (offerMatch H env limit) (H.empty, 0))
      (matches'.topK limit timeOf) := by
  induction matches' using List.reverseRecOn with
  | nil => exact MinHeap.Tracks.empty hH
  | append_singleton ms m ih =>
    rw [List.foldl_append, List.topK_concat]
    exact tracks_offerMatch H limit hH ih (by rw [List.length_topK]; exact min_le_left _ _) m

end Scan

/-! ### What is reported -/

/-- The entries of streams, each with the labels of its stream. -/
def lines (streams : List StreamResult) : List (List (String × String) × ResolvedEntry) :=
  streams.flatMap fun stream => stream.entries.map fun e => (stream.labels, e)

/-- **Streams that report the newest entries of others**, up to a limit. -/
structure IsNewest (limit : ℕ) (all newest : List StreamResult) : Prop where
  /-- The lines are among those of the others, and what is left out is no newer. -/
  leftOut : ∃ rest, (rest ++ lines newest).Perm (lines all) ∧
    ∀ r ∈ rest, ∀ e ∈ lines newest, r.2.timestampNs ≤ e.2.timestampNs
  length : (lines newest).length = min limit (lines all).length
  nonempty : ∀ stream ∈ newest, stream.entries ≠ []
  ascending : ∀ stream ∈ newest, stream.entries.SortedBy ResolvedEntry.timestampNs
  /-- Each stream is one of the others, cut down, and no two are the same one. -/
  once : ∃ streams : List StreamResult, streams.Subperm all ∧
    List.Forall₂ (fun stream full => stream.labels = full.labels ∧
      stream.entries.Subperm full.entries) newest streams

section Report

variable {env : Env Rodeo Spur F64} {stages : List (PipelineStage F64)} {startNs endNs : ℤ}

/-- The line of a matching entry. -/
def Env.lineOf (env : Env Rodeo Spur F64) (m : ℕ × LogEntry Spur F64) :
    List (String × String) × ResolvedEntry :=
  (env.streamLabels m.1, env.resolveEntry m.2)

theorem lines_streamResult (streamIds : List ℕ) :
    lines ((streamIds.map (env.streamResult stages startNs endNs)).filter
      fun result => !result.entries.isEmpty) =
      (env.matching stages startNs endNs streamIds).map env.lineOf := by
  induction streamIds with
  | nil => rfl
  | cons sid sids ih =>
    rw [lines] at ih ⊢
    rw [Env.matching, List.flatMap_cons, List.map_append, List.map_cons, List.filter_cons]
    have htail := ih
    rw [Env.matching] at htail
    cases hp : env.passing stages startNs endNs sid with
    | nil => simpa [Env.streamResult, hp] using htail
    | cons e es =>
      rw [if_pos (by simp [Env.streamResult, hp]), List.flatMap_cons, htail]
      simp [Env.streamResult, hp, Env.lineOf, Function.comp_def]

omit [FloatOps F64] in
theorem lines_regroup_perm (items : List HeapItem) :
    (lines (env.regroup items)).Perm
      (items.map fun item => (env.streamLabels item.sid, item.entry)) := by
  have hgroup : ∀ sid, ((((items.filter fun item => item.sid == sid).map HeapItem.entry).sortByKey
        ResolvedEntry.timestampNs).map fun e => (env.streamLabels sid, e)).Perm
      ((items.filter fun item => item.sid == sid).map
        fun item => (env.streamLabels item.sid, item.entry)) := by
    intro sid
    refine ((List.sortByKey_perm _ _).map _).trans (List.Perm.of_eq ?_)
    rw [List.map_map]
    refine List.map_congr_left fun item hitem => ?_
    have hsid : item.sid = sid := by simpa using (List.mem_filter.mp hitem).2
    rw [hsid]
    rfl
  rw [lines, Env.regroup, List.flatMap_map, List.sortedGroups, List.flatMap_map]
  refine (List.Perm.flatMap_left _ fun sid _ => hgroup sid).trans ?_
  rw [← List.map_flatMap]
  exact (List.flatMap_filter_perm List.sortedKeys_nodup fun item hitem =>
    List.mem_sortedKeys.mpr ⟨item, hitem, rfl⟩).map _

theorem matching_filter_of_notMem {streamIds : List ℕ} {sid : ℕ} (hsid : sid ∉ streamIds) :
    ((env.matching stages startNs endNs streamIds).filter fun m => m.1 == sid) = [] := by
  rw [List.filter_eq_nil_iff]
  intro m hm
  obtain ⟨k, hk, hm⟩ := List.mem_flatMap.mp hm
  obtain ⟨e, -, rfl⟩ := List.mem_map.mp hm
  simpa using fun heq : k = sid => hsid (heq ▸ hk)

/-- The matching entries of one stream. -/
theorem matching_filter {streamIds : List ℕ} (hn : streamIds.Nodup) {sid : ℕ}
    (hsid : sid ∈ streamIds) :
    ((env.matching stages startNs endNs streamIds).filter fun m => m.1 == sid) =
      (env.passing stages startNs endNs sid).map fun e => (sid, e) := by
  induction streamIds with
  | nil => exact absurd hsid List.not_mem_nil
  | cons k ks ih =>
    obtain ⟨hk, hn⟩ := List.nodup_cons.mp hn
    have htail : ((env.matching stages startNs endNs (k :: ks)).filter fun m => m.1 == sid) =
        (((env.passing stages startNs endNs k).map fun e => (k, e)).filter fun m => m.1 == sid) ++
          (env.matching stages startNs endNs ks).filter fun m => m.1 == sid := by
      rw [Env.matching, List.flatMap_cons, List.filter_append]
      rfl
    rw [htail]
    rcases List.mem_cons.mp hsid with rfl | hsid
    · rw [matching_filter_of_notMem hk, List.append_nil]
      exact List.filter_eq_self.mpr (by simp)
    · have hne : k ≠ sid := fun heq => hk (heq ▸ hsid)
      rw [ih hn hsid, List.filter_eq_nil_iff.mpr (by simp [hne]), List.nil_append]

/-- Streams with a matching entry, each once, are among those reported without a limit. -/
theorem map_streamResult_subperm {streamIds sids : List ℕ} (hn : sids.Nodup)
    (hsids : ∀ sid ∈ sids, ∃ m ∈ env.matching stages startNs endNs streamIds, m.1 = sid) :
    (sids.map (env.streamResult stages startNs endNs)).Subperm
      ((streamIds.map (env.streamResult stages startNs endNs)).filter
        fun result => !result.entries.isEmpty) := by
  have hsub : sids.Subperm
      (streamIds.filter fun sid => !(env.passing stages startNs endNs sid).isEmpty) := by
    refine hn.subperm fun sid hsid => ?_
    obtain ⟨m, hm, rfl⟩ := hsids sid hsid
    obtain ⟨k, hk, hmk⟩ := List.mem_flatMap.mp hm
    obtain ⟨e, he, rfl⟩ := List.mem_map.mp hmk
    exact List.mem_filter.mpr ⟨hk, by simpa using List.ne_nil_of_mem he⟩
  have hfun : ((fun result : StreamResult => !result.entries.isEmpty) ∘
      env.streamResult stages startNs endNs) =
      fun sid => !(env.passing stages startNs endNs sid).isEmpty := by
    funext sid
    simp [Env.streamResult]
  obtain ⟨sids', hperm, hsids'⟩ := hsub
  refine ⟨sids'.map (env.streamResult stages startNs endNs), hperm.map _, ?_⟩
  rw [List.filter_map, hfun]
  exact hsids'.map _

/-- What is kept of one stream, out of what is reported of it without a limit. -/
theorem map_filter_sublist {streamIds : List ℕ} (hn : streamIds.Nodup)
    {held : List (ℕ × LogEntry Spur F64)}
    (hheld : held.Sublist (env.matching stages startNs endNs streamIds)) {sid : ℕ}
    (hsid : ∃ m ∈ held, m.1 = sid) :
    ((held.filter fun m => m.1 == sid).map fun m => env.resolveEntry m.2).Sublist
      (env.streamResult stages startNs endNs sid).entries := by
  obtain ⟨m, hm, rfl⟩ := hsid
  obtain ⟨k, hk, hmk⟩ := List.mem_flatMap.mp (hheld.subset hm)
  obtain ⟨e, -, rfl⟩ := List.mem_map.mp hmk
  have hfull := (hheld.filter fun m => m.1 == k).map fun m => env.resolveEntry m.2
  rwa [matching_filter hn hk, List.map_map] at hfull

variable (env) in
/-- What the heap holds after the scan, as a permutation of the newest matching entries. -/
theorem exists_items_perm (H : MinHeap HeapItem) (hH : H.Lawful HeapItem.key) (limit : ℕ)
    (ms : List (ℕ × LogEntry Spur F64)) {β : Type} (f : HeapItem → β)
    (g : ℕ × LogEntry Spur F64 → β) (hfg : ∀ n m, f (env.heapItem n m) = g m)
    (p : ℕ → Bool) :
    (((H.toList (ms.foldl (offerMatch H env limit) (H.empty, 0)).1).filter
      fun item => p item.sid).map f).Perm
      (((ms.topK limit timeOf).filter fun m => p m.1).map g) := by
  obtain ⟨stamped, hheld, -, -, hperm⟩ := tracks_scan H env limit hH ms
  refine ((hperm.filter _).map f).trans (List.Perm.of_eq ?_)
  rw [← hheld, List.filter_map, List.filter_map, List.map_map, List.map_map]
  refine List.map_congr_left fun p _ => ?_
  exact hfg p.1 p.2

variable (env) in
/-- The lines reported are those of the newest matching entries. -/
theorem lines_topK_perm (H : MinHeap HeapItem) (hH : H.Lawful HeapItem.key) (limit : ℕ)
    (ms : List (ℕ × LogEntry Spur F64)) :
    (lines (env.regroup (H.toList (ms.foldl (offerMatch H env limit) (H.empty, 0)).1))).Perm
      ((ms.topK limit timeOf).map env.lineOf) := by
  have hall := exists_items_perm env H hH limit ms
    (fun item => (env.streamLabels item.sid, item.entry)) env.lineOf (fun _ _ => rfl) fun _ => true
  simp only [List.filter_true] at hall
  exact (lines_regroup_perm _).trans hall

theorem isNewest_regroup (H : MinHeap HeapItem) (hH : H.Lawful HeapItem.key) (limit : ℕ)
    {streamIds : List ℕ} (hn : streamIds.Nodup) :
    IsNewest limit
      ((streamIds.map (env.streamResult stages startNs endNs)).filter
        fun result => !result.entries.isEmpty)
      (env.regroup (H.toList ((env.matching stages startNs endNs streamIds).foldl
        (offerMatch H env limit) (H.empty, 0)).1)) := by
  have hitems := fun {b} => exists_items_perm env (β := b) H hH limit
    (env.matching stages startNs endNs streamIds)
  have hlines := lines_topK_perm env H hH limit (env.matching stages startNs endNs streamIds)
  generalize H.toList ((env.matching stages startNs endNs streamIds).foldl
    (offerMatch H env limit) (H.empty, 0)).1 = items at hitems hlines ⊢
  constructor
  · obtain ⟨rest, hperm, hle⟩ := List.exists_append_topK_perm (limit : ℕ) timeOf
      (env.matching stages startNs endNs streamIds)
    refine ⟨rest.map env.lineOf, ?_, ?_⟩
    · rw [lines_streamResult]
      refine (hlines.append_left _).trans ?_
      rw [← List.map_append]
      exact hperm.map _
    · intro r hr e he
      obtain ⟨m, hm, rfl⟩ := List.mem_map.mp hr
      obtain ⟨m', hm', rfl⟩ := List.mem_map.mp (hlines.mem_iff.mp he)
      exact hle m hm m' hm'
  · rw [hlines.length_eq, lines_streamResult, List.length_map, List.length_map, List.length_topK]
  · intro stream hstream
    obtain ⟨group, hgroup, rfl⟩ := List.mem_map.mp hstream
    obtain ⟨sid, hsid, rfl⟩ := List.mem_map.mp hgroup
    obtain ⟨item, hitem, rfl⟩ := List.mem_sortedKeys.mp hsid
    refine List.ne_nil_of_mem (a := item.entry) (List.mem_sortByKey.mpr ?_)
    exact List.mem_map_of_mem (List.mem_filter.mpr ⟨hitem, beq_self_eq_true _⟩)
  · intro stream hstream
    obtain ⟨group, -, rfl⟩ := List.mem_map.mp hstream
    exact List.sortedBy_sortByKey _ _
  · have hkeys : ∀ sid ∈ List.sortedKeys id HeapItem.sid items, ∃ m ∈
        (env.matching stages startNs endNs streamIds).topK limit timeOf, m.1 = sid := by
      intro sid hsid
      obtain ⟨item, hitem, rfl⟩ := List.mem_sortedKeys.mp hsid
      have hsids := hitems HeapItem.sid Prod.fst (fun _ _ => rfl) fun _ => true
      simp only [List.filter_true] at hsids
      exact List.mem_map.mp (hsids.mem_iff.mp (List.mem_map_of_mem hitem))
    refine ⟨(List.sortedKeys id HeapItem.sid items).map (env.streamResult stages startNs endNs),
      map_streamResult_subperm List.sortedKeys_nodup fun sid hsid => ?_, ?_⟩
    · obtain ⟨m, hm, hsid⟩ := hkeys sid hsid
      exact ⟨m, (List.topK_sublist _ _ _).subset hm, hsid⟩
    · rw [Env.regroup, List.sortedGroups, List.map_map, List.forall₂_map_left_iff,
        List.forall₂_map_right_iff, List.forall₂_same]
      intro sid hsid
      have hgroup := hitems HeapItem.entry (fun m => env.resolveEntry m.2) (fun _ _ => rfl)
        fun k => k == sid
      exact ⟨rfl, ((List.sortByKey_perm _ _).trans hgroup).subperm.trans
        (map_filter_sublist hn (List.topK_sublist _ _ _) (hkeys sid hsid)).subperm⟩

end Report

/-! ### With a limit and without -/

variable [LinearOrder Spur]

theorem evaluateStreamQuery_limit (H : MinHeap HeapItem) (env : Env Rodeo Spur F64)
    (matchers : List LogQLMatcher) (stages : List (PipelineStage F64)) (startNs endNs : ℤ)
    {limit : ℕ} (hlimit : 1 ≤ limit) :
    evaluateStreamQuery H env matchers stages startNs endNs (some limit) =
      evaluateLimitedStreamQuery H env (env.queryStreams matchers) stages startNs endNs limit := by
  cases limit with
  | zero => exact absurd hlimit (by omega)
  | succ limit => rfl

/-- **The limited evaluation reports the newest entries of the unlimited one**, whatever lawful heap
it keeps them in; where one of the two fails, so does the other. -/
theorem evaluateStreamQuery_isNewest (H : MinHeap HeapItem) (hH : H.Lawful HeapItem.key)
    (env : Env Rodeo Spur F64) (matchers : List LogQLMatcher) (stages : List (PipelineStage F64))
    (startNs endNs : ℤ) {limit : ℕ} (hlimit : 1 ≤ limit) :
    Option.Rel (IsNewest limit) (evaluateStreamQuery H env matchers stages startNs endNs none)
      (evaluateStreamQuery H env matchers stages startNs endNs (some limit)) := by
  rw [evaluateStreamQuery_limit H env matchers stages startNs endNs hlimit, evaluateStreamQuery]
  by_cases hreads : env.Reads startNs endNs (env.queryStreams matchers)
  · rw [evaluateUnlimited_of_reads hreads, evaluateLimited_of_reads H _ hreads]
    exact Option.Rel.some (isNewest_regroup H hH limit (LabelStore.nodup_select _ _ _ _))
  · obtain ⟨hall, hnewest⟩ := evaluate_of_not_reads H stages limit hreads
    rw [hall, hnewest]
    exact Option.Rel.none

/-- The newer of two lines. -/
theorem evaluateStreamQuery_isNewest_twoLines :
    let env := Env.ofOps [.ingestStream [("service", "a")] [plainEntry 1 "x", plainEntry 2 "y"]]
    let H := MinHeap.ofList HeapItem.key id
    Option.Rel (IsNewest 1)
      (evaluateStreamQuery H env [⟨"service", .eq, "a"⟩] [.lineNotContains "z"] 0 9 none)
      (evaluateStreamQuery H env [⟨"service", .eq, "a"⟩] [.lineNotContains "z"] 0 9 (some 1)) :=
  evaluateStreamQuery_isNewest _ (MinHeap.lawful_ofList _ fun l => List.Perm.refl l) _ _ _ 0 9 le_rfl

end LogQL

end Aniani
