import Aniani.ForMathlib.BinaryHeap
import Aniani.ForMathlib.Outlasts
import Aniani.Query.LogQL.Newest

/-!
# The `query_logs` tool

The tool runs a stream query over all times with a limit one above its own, to see whether there is
more than it may show. It lists the streams reported one after another, each from its oldest entry
to its newest, and cuts the list at its limit.

What is cut is the last line of the list, which is the newest one of the last stream. It is the
right one to leave out only where no other line is older.

## Main definitions

* `LogLine`, `QueryLogsResponse` — what is returned
* `runQueryLogs` — the tool, on a parsed query
* `ReportsNewest`, `CutsOldest`

## Main results

* `reportsNewest_iff_cutsOldest` — when the tool returns the newest lines
* `not_reportsNewest_twoLines` — a limit of one line returns the older of two
-/

namespace Aniani

namespace Mcp

open LogQL

/-! ### The tool -/

/-- A log line, with the labels of its stream. -/
abbrev LogLine := List (String × String) × ResolvedEntry

/-- `ts`: the time in milliseconds. -/
def LogLine.ts (line : LogLine) : String := toString (line.2.timestampNs.tdiv 1000000)

/-- `attributes`: a later value of a key replaces an earlier one. -/
def LogLine.attributes (line : LogLine) : FxHashMap String String :=
  line.2.attributes.foldl (fun map attr => map.insert attr.1 attr.2) ∅

/-- The structured content of a response, and its text. -/
structure QueryLogsResponse where
  logs : List LogLine
  shown : ℕ
  totalCount : ℕ
  truncated : Bool
  text : String

/-- The limit in force: 50 if none is given, and at most 100. -/
def queryLimit (limit : Option ℕ) : ℕ := min (limit.getD 50) 100

/-- The answer to a metric query. -/
def metricQueriesUnsupported : String :=
  "LogQL metric queries (count_over_time, rate, etc.) are not supported here; " ++
    "use query_metrics with a PromQL expression instead."

variable {Rodeo Spur F64 : Type} [LinearOrder Spur] [Interner Rodeo Spur] [FloatOps F64]

/-- How many lines a stream query matches in all. -/
def countMatches (H : MinHeap HeapItem) (env : Env Rodeo Spur F64) (expr : LogQLExpr F64)
    (out : List LogLine) : Option ℕ :=
  (evaluateLogqlLimited H env expr i64Min i64Max none none).map fun
    | .streams all => (all.map fun s => s.entries.length).sum
    | .matrix _ => out.length

/-- The total takes a full scan, made only when there is more than is shown. -/
def totalCount (H : MinHeap HeapItem) (env : Env Rodeo Spur F64) (expr : LogQLExpr F64)
    (truncated : Bool) (out : List LogLine) : Option ℕ :=
  if truncated then countMatches H env expr out else some out.length

/-- The text of a response. -/
def queryLogsText (shown totalCount : ℕ) (truncated : Bool) : String :=
  if truncated then
    "showing " ++ toString shown ++ " of " ++ toString totalCount ++
      " log line(s) — narrow `contains`/`level` or raise `limit`"
  else toString shown ++ " log line(s)"

/-- `handle_query_logs`, from the parsed query on; nothing where a read fails. -/
def runQueryLogs (H : MinHeap HeapItem) (env : Env Rodeo Spur F64) (expr : LogQLExpr F64)
    (limitArg : Option ℕ) : Option (Except String QueryLogsResponse) := do
  let limit := queryLimit limitArg
  -- one past the limit, so that `truncated` can be told
  match ← evaluateLogqlLimited H env expr i64Min i64Max none (some (limit + 1)) with
  | .matrix _ => return .error metricQueriesUnsupported
  | .streams streams =>
    let out := lines streams
    let truncated := decide (limit < out.length)
    let total ← totalCount H env expr truncated out
    let logs := out.take limit
    return .ok ⟨logs, logs.length, total, truncated, queryLogsText logs.length total truncated⟩

/-- The matchers and stages of a stream query. -/
def streamQuery? : LogQLExpr F64 → Option (List LogQLMatcher × List (PipelineStage F64))
  | .streamSelector matchers => some (matchers, [])
  | .pipeline selector stages => some ((extractSelectorAndStages selector).1,
      (extractSelectorAndStages selector).2 ++ stages)
  | .metricQuery _ _ _ => none

theorem evaluateLogqlLimited_of_streamQuery {H : MinHeap HeapItem} {env : Env Rodeo Spur F64}
    {expr : LogQLExpr F64} {query : List LogQLMatcher × List (PipelineStage F64)}
    (hquery : streamQuery? expr = some query) (startNs endNs : ℤ) (stepNs : Option ℤ)
    (limit : Option ℕ) :
    evaluateLogqlLimited H env expr startNs endNs stepNs limit =
      (evaluateStreamQuery H env query.1 query.2 startNs endNs limit).map .streams := by
  cases expr with
  | streamSelector matchers =>
    obtain rfl := Option.some.inj hquery
    rfl
  | pipeline selector stages =>
    obtain rfl := Option.some.inj hquery
    rfl
  | metricQuery => exact absurd hquery (by simp [streamQuery?])

/-! ### Which lines are returned -/

/-- **The newest lines are returned**: the lines are some of all, as many as there are up to the
limit, none that is left out is newer, and the counts are right. -/
structure ReportsNewest (limit : ℕ) (all : List LogLine) (r : QueryLogsResponse) : Prop where
  leftOut : ∃ rest, (rest ++ r.logs).Perm all ∧
    ∀ line ∈ rest, ∀ line' ∈ r.logs, line.2.timestampNs ≤ line'.2.timestampNs
  length : r.logs.length = min limit all.length
  totalCount : r.totalCount = all.length
  truncated : r.truncated = true ↔ limit < all.length

/-- **Of the newest lines, one more than the limit, those of the last stream are the oldest.** -/
def CutsOldest (limit : ℕ) (ms : List (ℕ × LogEntry Spur F64)) : Prop :=
  ∀ s ∈ ms.splits, s.Outlasts (limit + 1) timeOf →
    (∀ t ∈ ms.splits, t.Outlasts (limit + 1) timeOf → t.elem.1 ≤ s.elem.1) →
      ∀ t ∈ ms.splits, t.Outlasts (limit + 1) timeOf → timeOf s.elem ≤ timeOf t.elem

omit [LinearOrder Spur] [Interner Rodeo Spur] [FloatOps F64] in
theorem cutsOldest_iff (limit : ℕ) (ms : List (ℕ × LogEntry Spur F64)) :
    CutsOldest limit ms ↔ ∀ m ∈ ms.topK (limit + 1) timeOf,
      (∀ m' ∈ ms.topK (limit + 1) timeOf, m'.1 ≤ m.1) →
        ∀ m' ∈ ms.topK (limit + 1) timeOf, timeOf m ≤ timeOf m' := by
  simp only [List.forall_mem_topK_iff]
  rfl

variable {env : Env Rodeo Spur F64}

omit [LinearOrder Spur] [FloatOps F64] in
variable (env) in
/-- The last line is a newest one of the last stream. -/
theorem exists_lines_regroup_eq {items : List HeapItem} (hne : items ≠ []) :
    ∃ before sid e, lines (env.regroup items) = before ++ [(env.streamLabels sid, e)] ∧
      (sid, e) ∈ items.map (fun item => (item.sid, item.entry)) ∧
      ∀ p ∈ items.map (fun item => (item.sid, item.entry)),
        p.1 ≤ sid ∧ (p.1 = sid → p.2.timestampNs ≤ e.timestampNs) := by
  obtain ⟨item, hitem⟩ := List.exists_mem_of_ne_nil items hne
  have hsorted : (List.sortedKeys id HeapItem.sid items).SortedBy id := List.sortedKeys_sorted
  have hmem : ∀ {sid}, sid ∈ List.sortedKeys id HeapItem.sid items ↔
      ∃ item ∈ items, item.sid = sid := List.mem_sortedKeys
  rcases List.eq_nil_or_concat (List.sortedKeys id HeapItem.sid items) with hnil | ⟨sids, sid, hsids⟩
  · exact absurd (hmem.mpr ⟨item, hitem, rfl⟩) (hnil ▸ List.not_mem_nil)
  rw [List.concat_eq_append] at hsids
  obtain ⟨last, hlast, rfl⟩ := hmem.mp (hsids ▸ List.mem_append_right _ List.mem_cons_self)
  have hgroup : ∀ {e}, e ∈ ((items.filter fun item => item.sid == last.sid).map
      HeapItem.entry).sortByKey ResolvedEntry.timestampNs ↔
        (last.sid, e) ∈ items.map fun item => (item.sid, item.entry) := by
    intro e
    simp [List.mem_sortByKey, and_assoc]
  have hascending := List.sortedBy_sortByKey ResolvedEntry.timestampNs
    ((items.filter fun item => item.sid == last.sid).map HeapItem.entry)
  rcases List.eq_nil_or_concat (((items.filter fun item => item.sid == last.sid).map
    HeapItem.entry).sortByKey ResolvedEntry.timestampNs) with hnil | ⟨es, e, hes⟩
  · exact absurd (hgroup.mpr (List.mem_map.mpr ⟨last, hlast, rfl⟩)) (hnil ▸ List.not_mem_nil)
  rw [List.concat_eq_append] at hes
  rw [hes] at hascending
  refine ⟨(sids.flatMap fun sid => (((items.filter fun item => item.sid == sid).map
    HeapItem.entry).sortByKey ResolvedEntry.timestampNs).map fun e => (env.streamLabels sid, e)) ++
      es.map fun e => (env.streamLabels last.sid, e), last.sid, e, ?_, ?_, ?_⟩
  · rw [lines, Env.regroup, List.sortedGroups, hsids, List.map_map, List.flatMap_map,
      List.flatMap_append, List.flatMap_singleton, List.append_assoc]
    congr 1
    show ((((items.filter fun item => item.sid == last.sid).map HeapItem.entry).sortByKey
      ResolvedEntry.timestampNs).map fun e => (env.streamLabels last.sid, e)) = _
    rw [hes, List.map_append]
    rfl
  · exact hgroup.mp (hes ▸ List.mem_append_right _ List.mem_cons_self)
  · intro p hp
    constructor
    · obtain ⟨item, hitem, rfl⟩ := List.mem_map.mp hp
      have hkey := hmem.mpr ⟨item, hitem, rfl⟩
      rw [hsids] at hkey hsorted
      rcases List.mem_append.mp hkey with hkey | hkey
      · exact (List.pairwise_append.mp hsorted).2.2 _ hkey _ List.mem_cons_self
      · exact (List.mem_singleton.mp hkey).le
    · intro hsid
      have hentry : p.2 ∈ es ++ [e] := hes ▸ hgroup.mpr (hsid ▸ hp)
      rcases List.mem_append.mp hentry with hentry | hentry
      · exact (List.pairwise_append.mp hascending).2.2 _ hentry _ List.mem_cons_self
      · rw [List.mem_singleton.mp hentry]

omit [LinearOrder Spur] in
/-- **What the tool returns of the newest lines**, one more than its limit, filed under their
streams. -/
theorem reportsNewest_take_iff (H : MinHeap HeapItem) (hH : H.Lawful HeapItem.key) (limit : ℕ)
    (ms : List (ℕ × LogEntry Spur F64)) (text : String) :
    let out := lines (env.regroup (H.toList (ms.foldl (offerMatch H env (limit + 1))
      (H.empty, 0)).1))
    ReportsNewest limit (ms.map env.lineOf)
      ⟨out.take limit, (out.take limit).length, ms.length, decide (limit < out.length), text⟩ ↔
      ms.length ≤ limit ∨ CutsOldest limit ms := by
  intro out
  have hpairs := exists_items_perm env H hH (limit + 1) ms
    (fun item => (item.sid, item.entry)) (fun m => (m.1, env.resolveEntry m.2)) (fun _ _ => rfl)
    fun _ => true
  simp only [List.filter_true] at hpairs
  have hlines : out.Perm ((ms.topK (limit + 1) timeOf).map env.lineOf) :=
    lines_topK_perm env H hH (limit + 1) ms
  have hlen : out.length = min (limit + 1) ms.length := by
    rw [hlines.length_eq, List.length_map, List.length_topK]
  by_cases hfew : ms.length ≤ limit
  · refine iff_of_true ?_ (Or.inl hfew)
    have hheld : ms.topK (limit + 1) timeOf = ms :=
      (List.topK_sublist _ _ ms).eq_of_length (by rw [List.length_topK]; omega)
    rw [hheld] at hlines
    have htake : out.take limit = out := List.take_of_length_le (by omega)
    rw [htake]
    refine ⟨⟨[], by simpa using hlines, by simp⟩, ?_, by simp, ?_⟩
    · show out.length = _
      rw [List.length_map, hlen]
      omega
    · rw [List.length_map]
      simp only [decide_eq_true_iff]
      omega
  · rw [or_iff_right hfew, cutsOldest_iff]
    obtain ⟨rest, hrest, hle⟩ := List.exists_append_topK_perm (limit + 1) timeOf ms
    generalize hheld : ms.topK (limit + 1) timeOf = held at *
    have hlast : out.length = limit + 1 := by omega
    -- the list ends with the line that is cut
    have hitems : H.toList (ms.foldl (offerMatch H env (limit + 1)) (H.empty, 0)).1 ≠ [] := by
      intro hnil
      have hout : out = [] := by
        show lines (env.regroup _) = []
        rw [hnil]
        rfl
      rw [hout] at hlast
      exact absurd hlast (Nat.succ_ne_zero limit).symm
    obtain ⟨before, sid, e, hout, hmem, hmax⟩ := exists_lines_regroup_eq env hitems
    change out = before ++ [(env.streamLabels sid, e)] at hout
    have hbefore : before.length = limit := by
      rw [hout, List.length_append, List.length_singleton] at hlast
      omega
    have htake : out.take limit = before := by rw [hout, ← hbefore, List.take_left]
    have hall : (ms.map env.lineOf).Perm
        ((rest.map env.lineOf ++ [(env.streamLabels sid, e)]) ++ before) := by
      have hms := (hrest.map env.lineOf).symm
      rw [List.map_append] at hms
      have hsplit := hms.trans (hlines.symm.append_left (rest.map env.lineOf))
      rw [hout] at hsplit
      rw [List.append_assoc]
      exact hsplit.trans (List.perm_append_comm.append_left _)
    have hentries : ∀ {m}, m ∈ held → (m.1, env.resolveEntry m.2) ∈
        (H.toList (ms.foldl (offerMatch H env (limit + 1)) (H.empty, 0)).1).map
          (fun item => (item.sid, item.entry)) := fun hm =>
      hpairs.mem_iff.mpr (List.mem_map.mpr ⟨_, hm, rfl⟩)
    obtain ⟨cut, hcut, hcuteq⟩ := List.mem_map.mp (hpairs.mem_iff.mp hmem)
    obtain ⟨rfl, rfl⟩ := Prod.mk.inj hcuteq
    have hcutmax : ∀ m ∈ held, m.1 ≤ cut.1 := fun m hm => (hmax _ (hentries hm)).1
    have hcutnewest : ∀ m ∈ held, m.1 = cut.1 → timeOf m ≤ timeOf cut := fun m hm =>
      (hmax _ (hentries hm)).2
    have holdest : (∀ m ∈ held, (∀ m' ∈ held, m'.1 ≤ m.1) → ∀ m' ∈ held, timeOf m ≤ timeOf m') ↔
        ∀ m ∈ held, timeOf cut ≤ timeOf m := by
      constructor
      · intro h
        exact h cut hcut hcutmax
      · intro h m hm hmmax m' hm'
        have hsid : m.1 = cut.1 := le_antisymm (hcutmax m hm) (hmmax cut hcut)
        exact (hcutnewest m hm hsid).trans (h m' hm')
    rw [holdest, htake]
    constructor
    · rintro ⟨⟨rest', hrest', hle'⟩, -, -, -⟩ m hm
      have hperm : rest'.Perm (rest.map env.lineOf ++ [env.lineOf cut]) :=
        (List.perm_append_right_iff before).mp (hrest'.trans hall)
      have hcutout : env.lineOf cut ∈ rest' :=
        hperm.mem_iff.mpr (List.mem_append_right _ List.mem_cons_self)
      have hline : env.lineOf m ∈ out := hlines.mem_iff.mpr (List.mem_map_of_mem hm)
      rw [hout] at hline
      rcases List.mem_append.mp hline with hline | hline
      · exact hle' _ hcutout _ hline
      · have htime := congrArg (fun line : LogLine => line.2.timestampNs) (List.mem_singleton.mp hline)
        exact (show timeOf m = timeOf cut from htime).ge
    · intro h
      refine ⟨⟨_, hall.symm, ?_⟩, ?_, by simp, ?_⟩
      · intro line hline line' hline'
        have hkept : line' ∈ out := hout ▸ List.mem_append_left _ hline'
        obtain ⟨m', hm', rfl⟩ := List.mem_map.mp (hlines.mem_iff.mp hkept)
        rcases List.mem_append.mp hline with hline | hline
        · obtain ⟨m, hm, rfl⟩ := List.mem_map.mp hline
          exact hle m hm m' hm'
        · rw [List.mem_singleton.mp hline]
          exact h m' hm'
      · show before.length = _
        rw [List.length_map]
        omega
      · rw [List.length_map]
        simp only [decide_eq_true_iff]
        omega

/-! ### The tool on a store -/

omit [LinearOrder Spur] [Interner Rodeo Spur] [FloatOps F64] in
/-- A sorted store is read over all times. -/
theorem reads_of_sorted (h : env.store.Sorted) (streamIds : List ℕ) :
    env.Reads i64Min i64Max streamIds := fun sid _ =>
  ⟨_, LabelStore.getRange_of_le h sid (by decide)⟩

variable (env) in
/-- What a stream query returns from a sorted store. -/
theorem runQueryLogs_of_sorted (H : MinHeap HeapItem) (hH : H.Lawful HeapItem.key)
    (h : env.store.Sorted) {expr : LogQLExpr F64}
    {query : List LogQLMatcher × List (PipelineStage F64)} (hquery : streamQuery? expr = some query)
    (limitArg : Option ℕ) :
    let limit := queryLimit limitArg
    let ms := env.matching query.2 i64Min i64Max (env.queryStreams query.1)
    let out := lines (env.regroup (H.toList (ms.foldl (offerMatch H env (limit + 1))
      (H.empty, 0)).1))
    ∃ text, runQueryLogs H env expr limitArg = some (.ok
      ⟨out.take limit, (out.take limit).length, ms.length, decide (limit < out.length), text⟩) := by
  intro limit ms out
  have hreads := reads_of_sorted h (env.queryStreams query.1)
  have hlimited : evaluateLogqlLimited H env expr i64Min i64Max none (some (limit + 1)) =
      some (.streams (env.regroup (H.toList (ms.foldl (offerMatch H env (limit + 1))
        (H.empty, 0)).1))) := by
    rw [evaluateLogqlLimited_of_streamQuery hquery,
      evaluateStreamQuery_limit H env _ _ _ _ (Nat.succ_pos limit),
      evaluateLimited_of_reads H _ hreads]
    rfl
  have hall : countMatches H env expr out = some ms.length := by
    have hlines : (lines (((env.queryStreams query.1).map
        (env.streamResult query.2 i64Min i64Max)).filter
          fun result => !result.entries.isEmpty)).length = ms.length := by
      rw [lines_streamResult, List.length_map]
    rw [lines, List.length_flatMap] at hlines
    rw [countMatches, evaluateLogqlLimited_of_streamQuery hquery, evaluateStreamQuery,
      evaluateUnlimited_of_reads hreads, Option.map_some, Option.map_some]
    simpa using hlines
  have hlen : out.length = min (limit + 1) ms.length := by
    rw [(lines_topK_perm env H hH (limit + 1) ms).length_eq, List.length_map, List.length_topK]
  have htotal : totalCount H env expr (decide (limit < out.length)) out = some ms.length := by
    rw [totalCount]
    split
    · exact hall
    · next hfew =>
      rw [decide_eq_true_iff] at hfew
      congr 1
      omega
  refine ⟨queryLogsText (out.take limit).length ms.length (decide (limit < out.length)), ?_⟩
  rw [runQueryLogs, hlimited]
  show (totalCount H env expr (decide (limit < out.length)) out).bind _ = _
  rw [htotal]
  rfl

/-- **A stream query of any store returns the newest lines exactly when all lines are returned, or
what is cut is the oldest of the newest ones.** -/
theorem reportsNewest_iff_cutsOldest (H : MinHeap HeapItem) (hH : H.Lawful HeapItem.key)
    (ops : List (LogOp Spur F64)) (it : IterOrder ℕ) (itValues : IterOrder Spur)
    (regexNew : String → Option Regex) (json : JsonCrate F64) {expr : LogQLExpr F64}
    {query : List LogQLMatcher × List (PipelineStage F64)} (hquery : streamQuery? expr = some query)
    (limitArg : Option ℕ) :
    let env : Env Rodeo Spur F64 :=
      ⟨Run.exec LogStore.apply LogStore.new ops, it, itValues, regexNew, json⟩
    let ms := env.matching query.2 i64Min i64Max (env.queryStreams query.1)
    ∃ r, runQueryLogs H env expr limitArg = some (.ok r) ∧
      (ReportsNewest (queryLimit limitArg) (ms.map env.lineOf) r ↔
        ms.length ≤ queryLimit limitArg ∨ CutsOldest (queryLimit limitArg) ms) := by
  intro env ms
  obtain ⟨text, hrun⟩ := runQueryLogs_of_sorted env H hH (LogStore.sorted_exec ops) hquery
    limitArg
  exact ⟨_, hrun, reportsNewest_take_iff H hH (queryLimit limitArg) ms text⟩

/-- Two lines of one stream. -/
def twoLines : Env VecRodeo ℕ ℤ :=
  Env.ofOps [.ingestStream [("service", "a")] [plainEntry 1 "x", plainEntry 2 "y"]]

/-- On the two lines the two conditions are the same. -/
theorem reportsNewest_iff_cutsOldest_twoLines :
    let H := MinHeap.ofList HeapItem.key id
    let ms := twoLines.matching [] i64Min i64Max
      (twoLines.queryStreams [⟨"service", .eq, "a"⟩])
    ∃ r, runQueryLogs H twoLines (.streamSelector [⟨"service", .eq, "a"⟩]) (some 1) =
        some (.ok r) ∧
      (ReportsNewest (queryLimit (some 1)) (ms.map twoLines.lineOf) r ↔
        ms.length ≤ queryLimit (some 1) ∨ CutsOldest (queryLimit (some 1)) ms) :=
  reportsNewest_iff_cutsOldest _ (MinHeap.lawful_ofList _ fun l => List.Perm.refl l) _ _ _ _ _
    (show streamQuery? (.streamSelector [⟨"service", .eq, "a"⟩]) =
      some ([⟨"service", .eq, "a"⟩], []) from rfl) (some 1)

/-- **A limit of one line returns the older of two.** -/
theorem not_reportsNewest_twoLines :
    let ms := twoLines.matching [] i64Min i64Max
      (twoLines.queryStreams [⟨"service", .eq, "a"⟩])
    ∃ r, runQueryLogs (MinHeap.binary HeapItem.key) twoLines
        (.streamSelector [⟨"service", .eq, "a"⟩]) (some 1) = some (.ok r) ∧
      r.logs = [([("service", "a")], ⟨1, "x", none, none, []⟩)] ∧
      ¬ ReportsNewest 1 (ms.map twoLines.lineOf) r := by
  intro ms
  have hms : ms.map twoLines.lineOf = [([("service", "a")], ⟨1, "x", none, none, []⟩),
      ([("service", "a")], ⟨2, "y", none, none, []⟩)] := by decide
  refine ⟨⟨[([("service", "a")], ⟨1, "x", none, none, []⟩)], 1, 2, true, queryLogsText 1 2 true⟩,
    ?_, rfl, ?_⟩
  · rfl
  · rw [hms]
    rintro ⟨⟨rest, hperm, hle⟩, -, -, -⟩
    have hnewer : (([("service", "a")], ⟨2, "y", none, none, []⟩) : LogLine) ∈ rest := by
      have hmem := hperm.mem_iff.mpr (List.mem_cons_of_mem _ List.mem_cons_self)
      rcases List.mem_append.mp hmem with hmem | hmem
      · exact hmem
      · exact absurd hmem (by decide)
    exact absurd (hle _ hnewer _ List.mem_cons_self) (by decide)

end Mcp

end Aniani
