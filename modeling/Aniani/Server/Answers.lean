import Aniani.Query.LogQL.Answers
import Aniani.Query.TraceQL.Sent
import Aniani.Server.Journal

/-!
# From push to query

A run of the server ends in what the requests of the run said, less what removals were to take. A
query answers from that: the lines, or the spans, that were pushed before it and that no removal
since was to take, and that the query asks for, each as often as it was pushed.

## Main results

* `Server.query_history` — a stream query after a run
* `Server.get_trace_history` — the trace endpoint after a run
* `Server.exportTrace_commit` — what the commit of a request adds to a trace
-/

namespace Aniani

namespace Server

variable {Rodeo Spur F64 : Type} [LinearOrder Spur] [Interner Rodeo Spur] [FloatOps F64]
  [SerdeJson F64]

open Classical in
/-- **A stream query after a run** answers with the newest of the lines that were pushed, that no
later removal was to take, and that the query asks for; all of them, if there is no limit. This is
as long as no eviction to a maximum had to take anything. -/
theorem query_history (H : MinHeap LogQL.HeapItem) (hH : H.Lawful LogQL.HeapItem.key)
    (events : List (Event F64))
    (hids : Run.Along Server.step HasIds (start : Server Rodeo Spur F64) events)
    (hroomy : Run.Along Server.step Roomy (start : Server Rodeo Spur F64) events)
    (env : LogQL.Env Rodeo Spur F64)
    (hstore : env.store =
      (Run.exec Server.step (start : Server Rodeo Spur F64) events).state.logStore)
    (matchers : List LogQL.LogQLMatcher) (stages : List (LogQL.PipelineStage F64))
    (startNs endNs : ℤ) (limit : Option ℕ) :
    let pushed := Journal.history
      (Run.labels Server.step logOp (start : Server Rodeo Spur F64) events)
    let selected := pushed.filter (env.Selects matchers stages startNs endNs)
    (startNs ≤ endNs →
      (LogQL.evaluateStreamQuery H env matchers stages startNs endNs limit).isSome) ∧
    ∀ streams, LogQL.evaluateStreamQuery H env matchers stages startNs endNs limit = some streams →
      ∃ answered, LogQL.answers streams = answered.map (fun x => (x.1, LogQL.LogLine.report x.2)) ∧
        env.IsAnswer matchers stages startNs endNs limit pushed answered ∧
        ((∀ m ∈ LogQL.convertMatchers matchers,
            m.Compiles fun pattern => (env.regexNew pattern).map LogQL.Regex.isMatch) →
          (∀ x ∈ selected, (x.1.map Prod.fst).Nodup) →
          Multiset.IsTop limit (fun x => x.2.timestampNs) selected answered) := by
  intro pushed selected
  have hjournal : env.store.journal = pushed := by
    rw [hstore]
    exact (journals_eq_history hids hroomy).1
  have hfits : env.store.Invariant := by
    rw [hstore]
    exact (fits_exec hids).logs
  constructor
  · intro hle
    exact Option.isSome_iff_exists.mpr
      (LogQL.exists_evaluateStreamQuery H (fun _ _ hst => hfits.sorted hst) hle)
  · intro streams heval
    obtain ⟨answered, hanswer, hanswers⟩ := LogQL.evaluateStreamQuery_journal H hH hfits heval
    rw [hjournal] at hanswer
    exact ⟨answered, hanswers, hanswer, hanswer.isTop⟩

/-- The log store after the push of one line of service `a`. -/
def envAfterPush : LogQL.Env VecRodeo ℕ ℤ where
  store := (Run.exec Server.step (start : Server VecRodeo ℕ ℤ) pushAndClear).state.logStore
  it := IterOrder.ascending ℕ
  itValues := IterOrder.ascending ℕ
  regexNew _ := none
  json := ⟨fun _ => none, fun _ => ""⟩

/-- What is left of the push of one line is that line at most. -/
theorem history_pushAndClear_le : Journal.history (Run.labels Server.step logOp
    (start : Server VecRodeo ℕ ℤ) pushAndClear) ≤
      IngestRequest.logLines (fun n => [1].getD n 0) onePush := by
  have hlabels : Run.labels Server.step logOp (start : Server VecRodeo ℕ ℤ) pushAndClear =
      [.add 0, .add 0, .add (IngestRequest.logLines (fun n => [1].getD n 0) onePush),
        Removal.logJournalOp (.evictToMax 1), Removal.logJournalOp (.clearService "b")] := rfl
  rw [hlabels]
  refine (Journal.history_le _).trans (le_of_eq ?_)
  simp [Journal.Op.batch, Removal.logJournalOp]

theorem along_roomy_pushAndClear :
    Run.Along Server.step Roomy (start : Server VecRodeo ℕ ℤ) pushAndClear :=
  ⟨trivial, trivial, trivial, show 1 ≤ 1 from le_rfl, trivial, trivial⟩

open Classical in
/-- The lines of service `a` that say `li`, five at most: the one that was pushed. -/
theorem query_history_pushAndClear :
    let H := MinHeap.ofList LogQL.HeapItem.key id
    let pushed := Journal.history
      (Run.labels Server.step logOp (start : Server VecRodeo ℕ ℤ) pushAndClear)
    let selected := pushed.filter
      (envAfterPush.Selects [⟨"service", .eq, "a"⟩] [.lineContains "li"] 0 9)
    (LogQL.evaluateStreamQuery H envAfterPush [⟨"service", .eq, "a"⟩] [.lineContains "li"] 0 9
      (some 5)).isSome ∧
    ∃ answered, LogQL.answers [⟨[("service", "a")], [⟨0, "line", none, none, []⟩]⟩] =
        answered.map (fun x => (x.1, LogQL.LogLine.report x.2)) ∧
      Multiset.IsTop (some 5) (fun x => x.2.timestampNs) selected answered := by
  intro H pushed selected
  obtain ⟨hsome, hanswers⟩ := query_history H (MinHeap.lawful_ofList _ fun l => List.Perm.refl l)
    pushAndClear along_hasIds_pushAndClear along_roomy_pushAndClear envAfterPush rfl
    [⟨"service", .eq, "a"⟩] [.lineContains "li"] 0 9 (some 5)
  obtain ⟨answered, hanswered, -, htop⟩ := hanswers _ (show _ = some _ from rfl)
  refine ⟨hsome (by decide), answered, hanswered, htop (by
    simp [LogQL.convertMatchers, LabelMatcher.Compiles]) fun x hx => ?_⟩
  obtain rfl := List.mem_singleton.mp
    (Multiset.mem_of_le history_pushAndClear_le (Multiset.mem_of_mem_filter hx))
  exact Multiset.coe_nodup.mpr (List.nodup_singleton "service")

/-- **The trace endpoint after a run** gives the spans that were pushed under the id and that no
later removal was to take, each once, and says that there is no such trace exactly if there are
none. -/
theorem get_trace_history (events : List (Event F64))
    (hids : Run.Along Server.step HasIds (start : Server Rodeo Spur F64) events)
    (hroomy : Run.Along Server.step Roomy (start : Server Rodeo Spur F64) events) {text : String}
    {t : TraceId} (htext : (parseTraceId text.toList).bind (tryInto 16) = some t) :
    let s := Run.exec Server.step (start : Server Rodeo Spur F64) events
    let reply := s.state.traceStore.exportTrace text
    let pushed := (Journal.history
      (Run.labels Server.step traceOp (start : Server Rodeo Spur F64) events)).filter
        fun p => p.traceId = t
    (pushed = 0 → reply = .traceNotFound) ∧
      (pushed ≠ 0 → ∃ batches, reply = .ok batches ∧ TraceStore.Gives batches pushed) := by
  intro s reply pushed
  have hlegible : s.Legible := legible_exec hids
  have hjournal : s.state.traceStore.journal = Journal.history
      (Run.labels Server.step traceOp (start : Server Rodeo Spur F64) events) :=
    (journals_eq_history hids hroomy).2.2
  have hreply := TraceStore.exportTrace_journal hlegible.fits.traces hlegible.traces htext
  rw [hjournal] at hreply
  exact hreply

/-- A request of one span. -/
def oneSpan : IngestRequest ℤ :=
  .otlpTraces [⟨none, [⟨none,
    [⟨List.replicate 16 1, List.replicate 8 2, [], "get", 2, 10, 30, [], [], [], none⟩]⟩]⟩]

/-- The id of the span, in digits, after its push. -/
theorem get_trace_history_oneSpan :
    let events : List (Event ℤ) := [.arrive oneSpan, .stamp 0, .commit 0]
    let s := Run.exec Server.step (start : Server VecRodeo ℕ ℤ) events
    let reply := s.state.traceStore.exportTrace "01010101010101010101010101010101"
    let pushed := (Journal.history
      (Run.labels Server.step traceOp (start : Server VecRodeo ℕ ℤ) events)).filter
        fun p => p.traceId = Vector.replicate 16 1
    (pushed = 0 → reply = .traceNotFound) ∧
      (pushed ≠ 0 → ∃ batches, reply = .ok batches ∧ TraceStore.Gives batches pushed) :=
  get_trace_history [.arrive oneSpan, .stamp 0, .commit 0] ⟨trivial, trivial, fun r hr => by
      obtain rfl := Option.some.inj hr
      trivial, trivial⟩ ⟨trivial, trivial, trivial, trivial⟩ (by decide +kernel)

/-- **A trace that is sent is given back**: the commit of a request adds to the reply for a trace
what the request sends of it, spelled out on the request, and nothing else. -/
theorem exportTrace_commit {events : List (Event F64)}
    (hids : Run.Along Server.step HasIds (start : Server Rodeo Spur F64) events) {i : ℕ}
    {r : InFlight F64} {request : ExportTraceServiceRequest F64}
    (hready : (Run.exec Server.step (start : Server Rodeo Spur F64) events).ready i = some r)
    (hrequest : r.request = .otlpTraces request) {text : String} {t : TraceId}
    (htext : (parseTraceId text.toList).bind (tryInto 16) = some t) :
    let s := Run.exec Server.step (start : Server Rodeo Spur F64) events
    let before := s.state.traceStore.exportTrace text
    let after := (s.step (.commit i)).state.traceStore.exportTrace text
    after.spans = before.spans + sentSpans request t ∧
      (after = .traceNotFound ↔ before = .traceNotFound ∧ sentSpans request t = []) ∧
      ∀ batches, after = .ok batches → (batches.map ExportedBatch.service).Nodup ∧
        ∀ batch ∈ batches, batch.spans ≠ [] := by
  intro s before after
  have hlegible : s.Legible := legible_exec hids
  have hcommit : s.HasIds (.commit i) := fun r' hr' => by
    obtain rfl := Option.some.inj (hready.symm.trans hr')
    rw [hrequest]
    trivial
  obtain ⟨hlegible', -, -, hstep⟩ := hlegible.step hcommit
  have hop : s.traceOp (.commit i) = .add (r.request.spans (seqsOf r)) := by
    rw [traceOp, hready]
    rfl
  rw [hop, hrequest] at hstep
  have hjournal : (s.step (.commit i)).state.traceStore.journal = s.state.traceStore.journal +
      (IngestRequest.otlpTraces request).spans (seqsOf r) := by
    generalize (s.step (.commit i)).state.traceStore.journal = journal at hstep ⊢
    cases hstep
    rfl
  obtain ⟨hbefore, hnone⟩ := TraceStore.spans_exportTrace hlegible.fits.traces hlegible.traces htext
  obtain ⟨hafter, hnone'⟩ :=
    TraceStore.spans_exportTrace hlegible'.fits.traces hlegible'.traces htext
  have hsent : after.spans = before.spans + sentSpans request t := by
    rw [hafter, hbefore, hjournal, Multiset.filter_add, Multiset.map_add,
      ← map_resourceElements (seqsOf r) 0 request t]
    rfl
  refine ⟨hsent, ?_, fun batches hok => ?_⟩
  · rw [hnone', hnone, hsent, add_eq_zero, Multiset.coe_eq_zero]
  · have hreply := TraceStore.exportTrace_journal hlegible'.fits.traces hlegible'.traces htext
    by_cases hzero : ((s.step (.commit i)).state.traceStore.journal.filter
        fun p => p.traceId = t) = 0
    · exact TraceReply.noConfusion (hok.symm.trans (hreply.1 hzero))
    · obtain ⟨given, hgiven, hgives⟩ := hreply.2 hzero
      obtain rfl := TraceReply.ok.inj (hok.symm.trans hgiven)
      exact ⟨hgives.services, hgives.nonempty⟩

/-- A span with an attribute of its own, one of its resource and the name of its scope, that ends
out of the range of an `i64`. -/
def lateSpan : ExportTraceServiceRequest ℤ :=
  [⟨some ⟨[⟨"service.name", some (.stringValue "a")⟩]⟩, [⟨some ⟨"lib", "", []⟩,
    [⟨List.replicate 16 1, List.replicate 8 2, [], "get", 2, 10, 2 ^ 63,
      [⟨"tries", some (.arrayValue [.boolValue false, .intValue 3])⟩], [], [], some ("", 1)⟩]⟩]⟩]

theorem exportTrace_commit_lateSpan :
    let s := Run.exec Server.step (start : Server VecRodeo ℕ ℤ)
      [.arrive (.otlpTraces lateSpan), .stamp 0]
    ((s.step (.commit 0)).state.traceStore.exportTrace "01010101010101010101010101010101").spans =
      {("a", ⟨"01010101010101010101010101010101", "0202020202020202", "", "get", 2, "10",
        "9223372036854775807", (1, ""), [("resource.service.name", "a"), ("scope.name", "lib"),
          ("span.tries", "[false, 3]")], [], []⟩)} := by
  intro s
  have hsent : sentSpans lateSpan (Vector.replicate 16 1) =
      [("a", ⟨"01010101010101010101010101010101", "0202020202020202", "", "get", 2, "10",
        "9223372036854775807", (1, ""), [("resource.service.name", "a"), ("scope.name", "lib"),
          ("span.tries", "[false, 3]")], [], []⟩)] := by decide +kernel
  have hids : Run.Along Server.step HasIds (start : Server VecRodeo ℕ ℤ)
      [.arrive (.otlpTraces lateSpan), .stamp 0] := ⟨trivial, trivial, trivial⟩
  have htext : (parseTraceId "01010101010101010101010101010101".toList).bind (tryInto 16) =
      some (Vector.replicate 16 1) := by decide +kernel
  have hcommit := (exportTrace_commit hids (i := 0) rfl rfl htext).1
  rw [hsent] at hcommit
  exact hcommit

end Server

end Aniani
