import Aniani.Query.LogQL.Newest
import Aniani.Query.Reported
import Aniani.Query.Window
import Aniani.Store.Journal
import Aniani.Store.Select

/-!
# What a stream query answers

A stream query is a filter of what the log store stands for: the lines in the window whose labels
pass the matchers and whose text passes the stages, each as often as it is stored; with a limit, the
newest of them. Neither the streams nor the indexes show in the answer, nor the order of anything,
and nothing of the interner.

Two details show in part. The stages look labels up by name, so where a name comes up twice in a
label set, the order it is stored in decides. And a pattern that does not compile is only looked at
if the name of its label is interned. What is selected in any case is answered in any case.

## Main definitions

* `LogLine.report` — a line, as it is reported
* `answers` — the lines of an answer, each under the labels of its stream
* `Env.Selects`, `Env.SelectsSurely` — the plain filter
* `Env.IsAnswer` — what an answer is, of what a store stands for

## Main results

* `evaluateStreamQuery_journal` — what a query answers
* `Env.IsAnswer.isTop` — and that it is the filter where the names of labels are distinct
-/

namespace Aniani

namespace LogQL

variable {Rodeo Spur F64 : Type} [LinearOrder Spur] [Interner Rodeo Spur] [FloatOps F64]

/-- A line, as it is reported. -/
def LogLine.report (line : LogLine F64) : ResolvedEntry where
  timestampNs := line.timestampNs
  line := line.line
  traceId := line.traceId.map fun id => hexText id.toList
  spanId := line.spanId.map fun id => hexText id.toList
  attributes :=
    (line.attributes.map fun attr => (attr.1, attr.2.text)) ++
    (if line.severityNumber = 0 then [] else [("severity_number", toString line.severityNumber)]) ++
    (line.severityText.map fun text => ("severity_text", text)).toList

omit [LinearOrder Spur] in
theorem Env.resolveEntry_eq (env : Env Rodeo Spur F64) (e : LogEntry Spur F64) :
    env.resolveEntry e = LogLine.report (e.resolved env.store.interner) := by
  rw [Env.resolveEntry, LogLine.report, map_attributeText_eq, LogEntry.resolved]
  cases e.severityText <;> rfl

/-! ### Labels by name -/

/-- Where no name comes up twice, the order of the labels does not matter. -/
theorem seedLabels_eq_of_perm {labels labels' : List (String × String)}
    (hperm : labels.Perm labels') (hnodup : (labels.map Prod.fst).Nodup) :
    seedLabels labels = seedLabels labels' := by
  refine hperm.foldl_eq' (fun a ha b hb extracted => ?_) ∅
  by_cases hab : a.1 = b.1
  · rw [List.inj_on_of_nodup_map hnodup ha hb hab]
  · exact Finmap.insert_insert_of_ne extracted hab

/-- A matcher does not see the order of the labels. -/
theorem passes_of_perm {regexNew : String → Option (String → Bool)}
    {labels labels' : List (String × String)} (hperm : labels.Perm labels') {m : LabelMatcher}
    (h : m.passes regexNew labels) : m.passes regexNew labels' := by
  have hmem : ∀ label, label ∈ labels ↔ label ∈ labels' := fun label => hperm.mem_iff
  cases m with | mk name op value =>
  cases op with
  | eq => exact (hmem _).mp h
  | neq => exact mt (hmem _).mpr h
  | regex => exact h.imp fun value hvalue => hvalue.imp_left (hmem _).mp
  | notRegex => exact fun hsome => h (hsome.imp fun value hvalue => hvalue.imp_left (hmem _).mpr)

/-! ### Answers -/

/-- The lines of an answer, each under the labels of its stream. -/
def answers (streams : List StreamResult) : Multiset (LabelBag × ResolvedEntry) :=
  ↑((lines streams).map fun line => ((line.1 : LabelBag), line.2))

/-- **The plain filter**: a line in the window whose labels pass the matchers, and which passes the
stages under them. -/
def Env.Selects (env : Env Rodeo Spur F64) (matchers : List LogQLMatcher)
    (stages : List (PipelineStage F64)) (startNs endNs : ℤ) (x : LabelBag × LogLine F64) : Prop :=
  startNs ≤ x.2.timestampNs ∧ x.2.timestampNs ≤ endNs ∧
    ∃ labels : List (String × String), (labels : LabelBag) = x.1 ∧
      (∀ m ∈ convertMatchers matchers,
        m.passes (fun pattern => (env.regexNew pattern).map Regex.isMatch) labels) ∧
      applyStages env.json x.2.line stages labels = true

/-- A line that the filter selects whatever order its labels come in, by patterns that all
compile. -/
def Env.SelectsSurely (env : Env Rodeo Spur F64) (matchers : List LogQLMatcher)
    (stages : List (PipelineStage F64)) (startNs endNs : ℤ) (x : LabelBag × LogLine F64) : Prop :=
  startNs ≤ x.2.timestampNs ∧ x.2.timestampNs ≤ endNs ∧
    (∀ m ∈ convertMatchers matchers,
      m.Compiles fun pattern => (env.regexNew pattern).map Regex.isMatch) ∧
    ∀ labels : List (String × String), (labels : LabelBag) = x.1 →
      (∀ m ∈ convertMatchers matchers,
        m.passes (fun pattern => (env.regexNew pattern).map Regex.isMatch) labels) ∧
      applyStages env.json x.2.line stages labels = true

open Classical in
/-- **An answer**, of what a store stands for: the newest lines, up to the limit if there is one, of
lines among which are all that are surely selected and none that is not selected. -/
def Env.IsAnswer (env : Env Rodeo Spur F64) (matchers : List LogQLMatcher)
    (stages : List (PipelineStage F64)) (startNs endNs : ℤ) (limit : Option ℕ)
    (journal answered : Multiset (LabelBag × LogLine F64)) : Prop :=
  ∃ kept, journal.filter (env.SelectsSurely matchers stages startNs endNs) ≤ kept ∧
    kept ≤ journal.filter (env.Selects matchers stages startNs endNs) ∧
    Multiset.IsTop limit (fun x => x.2.timestampNs) kept answered

section Selects

variable {env : Env Rodeo Spur F64} {matchers : List LogQLMatcher}
  {stages : List (PipelineStage F64)} {startNs endNs : ℤ} {limit : Option ℕ}

omit [LinearOrder Spur] [Interner Rodeo Spur] in
/-- Where the patterns compile and no name comes up twice, what is selected is so surely. -/
theorem Env.Selects.surely {x : LabelBag × LogLine F64}
    (h : env.Selects matchers stages startNs endNs x)
    (hcompiles : ∀ m ∈ convertMatchers matchers,
      m.Compiles fun pattern => (env.regexNew pattern).map Regex.isMatch)
    (hnodup : (x.1.map Prod.fst).Nodup) : env.SelectsSurely matchers stages startNs endNs x := by
  obtain ⟨hstart, hend, labels, hlabels, hpass, hstages⟩ := h
  rw [← hlabels, Multiset.map_coe, Multiset.coe_nodup] at hnodup
  refine ⟨hstart, hend, hcompiles, fun labels' hlabels' => ?_⟩
  have hperm : labels.Perm labels' := Multiset.coe_eq_coe.mp (hlabels.trans hlabels'.symm)
  refine ⟨fun m hm => passes_of_perm hperm (hpass m hm), ?_⟩
  rw [applyStages, applyStagesWithExtract] at hstages ⊢
  rwa [← seedLabels_eq_of_perm hperm hnodup]

omit [LinearOrder Spur] [Interner Rodeo Spur] in
open Classical in
/-- What is surely selected is selected. -/
theorem Env.filter_selectsSurely_le (journal : Multiset (LabelBag × LogLine F64)) :
    journal.filter (env.SelectsSurely matchers stages startNs endNs) ≤
      journal.filter (env.Selects matchers stages startNs endNs) := by
  refine Multiset.monotone_filter_right journal fun x hx => ?_
  obtain ⟨hstart, hend, -, hall⟩ := hx
  obtain ⟨labels, hlabels⟩ := Quot.exists_rep x.1
  exact ⟨hstart, hend, labels, hlabels, hall labels hlabels⟩

omit [LinearOrder Spur] [Interner Rodeo Spur] in
open Classical in
/-- Then an answer is the newest of what is selected. -/
theorem Env.IsAnswer.isTop {journal answered : Multiset (LabelBag × LogLine F64)}
    (h : env.IsAnswer matchers stages startNs endNs limit journal answered)
    (hcompiles : ∀ m ∈ convertMatchers matchers,
      m.Compiles fun pattern => (env.regexNew pattern).map Regex.isMatch)
    (hdistinct : ∀ x ∈ journal.filter (env.Selects matchers stages startNs endNs),
      (x.1.map Prod.fst).Nodup) :
    Multiset.IsTop limit (fun x => x.2.timestampNs)
      (journal.filter (env.Selects matchers stages startNs endNs)) answered := by
  obtain ⟨kept, hlower, hupper, htop⟩ := h
  have hsurely : journal.filter (env.Selects matchers stages startNs endNs) ≤
      journal.filter (env.SelectsSurely matchers stages startNs endNs) :=
    Multiset.le_filter.mpr ⟨Multiset.filter_le _ _, fun x hx =>
      (Multiset.of_mem_filter hx).surely hcompiles (hdistinct x hx)⟩
  rwa [le_antisymm hupper (hsurely.trans hlower)] at htop

/-- A line of a matching entry, under the labels of its stream. -/
def Env.lineIn (env : Env Rodeo Spur F64) (m : ℕ × LogEntry Spur F64) : LabelBag × LogLine F64 :=
  (env.streamLabels m.1, m.2.resolved env.store.interner)

omit [LinearOrder Spur] in
theorem Env.lineOf_eq (m : ℕ × LogEntry Spur F64) :
    (((env.lineOf m).1 : LabelBag), (env.lineOf m).2) =
      ((env.lineIn m).1, LogLine.report (env.lineIn m).2) :=
  Prod.ext rfl (env.resolveEntry_eq m.2)

variable (env stages) in
/-- The matching entries of a stream that is selected. -/
theorem Env.exists_passing_eq (h : env.store.Invariant)
    (hreads : env.Reads startNs endNs (env.queryStreams matchers)) {sid : ℕ}
    (hsid : sid ∈ env.queryStreams matchers) :
    ∃ stream, env.store.streams.lookup sid = some stream ∧
      env.streamLabels sid = env.store.resolveLabels stream.labels ∧
      (∀ m ∈ convertMatchers matchers,
        m.passes (fun pattern => (env.regexNew pattern).map Regex.isMatch)
          (env.store.resolveLabels stream.labels)) ∧
      env.passing stages startNs endNs sid = stream.entries.filter fun e =>
        decide (startNs ≤ e.timestampNs ∧ e.timestampNs ≤ endNs) &&
          applyStages env.json e.line stages (env.store.resolveLabels stream.labels) := by
  obtain ⟨stream, hst, hpass⟩ := h.toIndexed.passes_of_mem_select env.it env.itValues hsid
  have hlabels : env.streamLabels sid = env.store.resolveLabels stream.labels := by
    rw [Env.streamLabels, LabelStore.getStreamLabels, hst]
    rfl
  refine ⟨stream, hst, hlabels, hpass, ?_⟩
  obtain ⟨entries, hentries⟩ := hreads sid hsid
  have hwindow := LabelStore.getRange_of_sorted (fun _ _ hst => h.sorted hst) sid startNs endNs
  rw [show env.store.getRange sid startNs endNs = some entries from hentries] at hwindow
  split_ifs at hwindow
  rw [Env.passing, hentries, Option.getD_some, Option.some.inj hwindow, LabelStore.window,
    LabelStore.entriesOf_eq hst, List.filter_filter, hlabels]
  exact List.filter_congr fun e _ => Bool.and_comm _ _

variable (env stages) in
open Classical in
/-- **What a scan matches** is selected, and what is surely selected it matches. -/
theorem Env.matching_between (h : env.store.Invariant)
    (hreads : env.Reads startNs endNs (env.queryStreams matchers)) :
    env.store.journal.filter (env.SelectsSurely matchers stages startNs endNs) ≤
        Multiset.map env.lineIn ↑(env.matching stages startNs endNs (env.queryStreams matchers)) ∧
      Multiset.map env.lineIn ↑(env.matching stages startNs endNs (env.queryStreams matchers)) ≤
        env.store.journal.filter (env.Selects matchers stages startNs endNs) := by
  have hflat : (env.matching stages startNs endNs (env.queryStreams matchers)).map env.lineIn =
      (env.queryStreams matchers).flatMap fun sid =>
        (env.passing stages startNs endNs sid).map fun e => env.lineIn (sid, e) := by
    rw [Env.matching, List.map_flatMap]
    simp only [List.map_map]
    rfl
  have hnodup : (env.queryStreams matchers).Nodup := LabelStore.nodup_select _ _ _ _
  have hline {sid : ℕ} {stream : Stream Spur (LogEntry Spur F64)}
      (hlabels : env.streamLabels sid = env.store.resolveLabels stream.labels) :
      (fun e => env.lineIn (sid, e)) = fun e =>
        ((env.store.resolveLabels stream.labels : LabelBag), e.resolved env.store.interner) := by
    funext e
    rw [Env.lineIn, hlabels]
  rw [Multiset.map_coe, hflat, LogStore.journal, LabelStore.journal, Finmap.filter_flatValues,
    Finmap.filter_flatValues]
  constructor
  · refine Finmap.flatValues_le_coe_flatMap hnodup (fun sid hsid stream hst => ?_)
      fun sid stream hst hnot => ?_
    · obtain ⟨stream', hst', hlabels, -, hpassing⟩ :=
        env.exists_passing_eq stages h hreads hsid
      obtain rfl := Option.some.inj (hst.symm.trans hst')
      rw [hpassing, hline hlabels, LabelStore.elements, List.filter_map]
      refine Multiset.coe_le.mpr
        ((List.monotone_filter_right _ fun e hselected => ?_).map _).subperm
      obtain ⟨hstart, hend, -, hall⟩ := of_decide_eq_true hselected
      exact Bool.and_eq_true_iff.mpr ⟨decide_eq_true ⟨hstart, hend⟩, (hall _ rfl).2⟩
    · rw [LabelStore.elements, List.filter_map, List.map_eq_nil_iff, List.filter_eq_nil_iff]
      intro e he hselected
      obtain ⟨-, -, hcompiles, hall⟩ := of_decide_eq_true hselected
      exact hnot ((h.toIndexed.mem_select env.it env.itValues hcompiles sid).mpr
        ⟨stream, hst, (hall _ rfl).1⟩)
  · refine Finmap.coe_flatMap_le_flatValues hnodup fun sid hsid => ?_
    obtain ⟨stream, hst, hlabels, hpass, hpassing⟩ :=
      env.exists_passing_eq stages h hreads hsid
    refine ⟨stream, hst, ?_⟩
    rw [hpassing, hline hlabels, LabelStore.elements, List.filter_map]
    refine Multiset.coe_le.mpr ((List.monotone_filter_right _ fun e hkeep => ?_).map _).subperm
    obtain ⟨hwindow, hstages⟩ := Bool.and_eq_true_iff.mp hkeep
    exact decide_eq_true ⟨(of_decide_eq_true hwindow).1, (of_decide_eq_true hwindow).2, _, rfl,
      hpass, hstages⟩

/-- **What a stream query answers** is an answer of what the store stands for. -/
theorem evaluateStreamQuery_journal (H : MinHeap HeapItem) (hH : H.Lawful HeapItem.key)
    (h : env.store.Invariant) {streams : List StreamResult}
    (heval : evaluateStreamQuery H env matchers stages startNs endNs limit = some streams) :
    ∃ answered, env.IsAnswer matchers stages startNs endNs limit env.store.journal answered ∧
      answers streams = answered.map fun x => (x.1, LogLine.report x.2) := by
  have hreport (ms : List (ℕ × LogEntry Spur F64)) :
      (↑((ms.map env.lineOf).map fun line => ((line.1 : LabelBag), line.2)) : Multiset _) =
        (Multiset.map env.lineIn ↑ms).map fun x => (x.1, LogLine.report x.2) := by
    rw [Multiset.map_coe, Multiset.map_coe, List.map_map, List.map_map]
    exact congrArg _ (List.map_congr_left fun m _ => env.lineOf_eq m)
  have hreads : limit ≠ some 0 → env.Reads startNs endNs (env.queryStreams matchers) := by
    intro hlimit
    by_contra hnot
    match limit, hlimit, heval with
    | none, _, heval =>
      exact Option.some_ne_none _ (heval.symm.trans (evaluate_of_not_reads H stages 0 hnot).1)
    | some (n + 1), _, heval =>
      exact Option.some_ne_none _
        (heval.symm.trans (evaluate_of_not_reads H stages (n + 1) hnot).2)
  match limit, hreads, heval with
  | some 0, _, heval =>
    refine ⟨0, ⟨_, le_rfl, Env.filter_selectsSurely_le _, Multiset.isTop_zero⟩, ?_⟩
    rw [← Option.some.inj heval]
    rfl
  | none, hreads, heval =>
    have hreads := hreads (by simp)
    obtain ⟨hlower, hupper⟩ := env.matching_between stages h hreads
    rw [evaluateStreamQuery, evaluateUnlimited_of_reads hreads] at heval
    refine ⟨_, ⟨_, hlower, hupper, Multiset.isTop_none⟩, ?_⟩
    rw [← Option.some.inj heval, answers, lines_streamResult, hreport]
  | some (n + 1), hreads, heval =>
    have hreads := hreads (by simp)
    obtain ⟨hlower, hupper⟩ := env.matching_between stages h hreads
    have heval : evaluateLimitedStreamQuery H env (env.queryStreams matchers) stages startNs endNs
      (n + 1) = some streams := heval
    rw [evaluateLimited_of_reads H _ hreads] at heval
    have htop := Multiset.isTop_topK (n + 1) timeOf
      (env.matching stages startNs endNs (env.queryStreams matchers))
    refine ⟨_, ⟨_, hlower, hupper, htop.map env.lineIn fun _ => rfl⟩, ?_⟩
    rw [← Option.some.inj heval, answers, ← hreport]
    exact Multiset.coe_eq_coe.mpr ((lines_topK_perm env H hH _ _).map _)

/-- A window that does not end before it starts is answered. -/
theorem exists_evaluateStreamQuery (H : MinHeap HeapItem) (h : env.store.Sorted)
    (hle : startNs ≤ endNs) :
    ∃ streams, evaluateStreamQuery H env matchers stages startNs endNs limit = some streams := by
  have hreads : env.Reads startNs endNs (env.queryStreams matchers) :=
    fun sid _ => ⟨_, LabelStore.getRange_of_le h sid hle⟩
  match limit with
  | none => exact ⟨_, evaluateUnlimited_of_reads hreads⟩
  | some 0 => exact ⟨_, rfl⟩
  | some (n + 1) => exact ⟨_, evaluateLimited_of_reads H _ hreads⟩

end Selects

end LogQL

end Aniani
