import Aniani.Query.LogQL.Export
import Aniani.Server.Answers

/-!
# From server to server

The reply to a stream query of one server is pushed into another. What the other server then stands
for is what it stood for and the lines the query selects of all that was pushed into the first,
each as often as it was pushed there, under its labels, with its ids and attributes; if they are
portable.

## Main definitions

* `ResolvedEntry.content` — an entry, whatever the order of its attributes
* `reported` — a line under its labels, as it is reported

## Main results

* `Server.moved_history` — a query, and the push of its reply
-/

namespace Aniani

namespace LogQL

variable {F64 : Type} [FloatOps F64]

/-- What an entry is, whatever the order of its attributes. -/
def ResolvedEntry.content (e : ResolvedEntry) :
    ℤ × String × Option String × Option String × LabelBag :=
  (e.timestampNs, e.line, e.traceId, e.spanId, ↑e.attributes)

/-- A line under its labels, as it is reported. -/
def reported (x : LabelBag × LogLine F64) :
    LabelBag × ℤ × String × Option String × Option String × LabelBag :=
  (x.1, (LogLine.report x.2).content)

/-! ### The push -/

/-- A value that was read is reported as what was written. -/
theorem Restores.content_eq {e : ResolvedEntry} {value : LokiValue} (h : Restores e value)
    (seq : ℕ) :
    (LogLine.report (lokiEntry seq value : PreparedLogEntry F64).logLine).content = e.content := by
  have hattributes : (LogLine.report
      (lokiEntry seq value : PreparedLogEntry F64).logLine).attributes = value.metadata := by
    rw [LogLine.report, PreparedLogEntry.logLine, lokiEntry]
    dsimp only
    rw [List.map_map, List.map_map, if_pos rfl, Option.map_none, Option.toList_none,
      List.append_nil, List.append_nil]
    exact List.map_id _
  have hcoe : (value.metadata : LabelBag) = e.attributes := Multiset.coe_eq_coe.mpr h.metadata
  rw [ResolvedEntry.content, ResolvedEntry.content, hattributes, hcoe, ← h.timestampNs, ← h.line,
    ← h.traceId, ← h.spanId]
  rfl

/-- **A push of streams that come back** has the lines that were written. -/
theorem reported_lokiBatches {streams : List StreamResult} {push : LokiPushRequest}
    (h : List.Forall₂ RestoresStream streams push) (seqs : ℕ → ℕ) (n : ℕ) :
    ((lokiBatches seqs n push : List (LogBatch F64)).flatMap LogStore.batchElements).map reported =
      (lines streams).map fun line => ((line.1 : LabelBag), line.2.content) := by
  induction h generalizing n with
  | nil => rfl
  | @cons sr stream streams push hstream hrest ih =>
    have hlabels : (stream.labels : LabelBag) = sr.labels := Multiset.coe_eq_coe.mpr hstream.1
    have hentries : ((stream.values.mapIdx fun i value =>
        (lokiEntry (seqs (n + i)) value : PreparedLogEntry F64)).map fun e =>
          reported ((stream.labels : LabelBag), e.logLine)) =
        sr.entries.map fun e => ((sr.labels : LabelBag), e.content) := by
      refine List.ext_getElem (by simp [hstream.2.length_eq]) fun i hi hi' => ?_
      rw [List.getElem_map, List.getElem_mapIdx, List.getElem_map]
      exact Prod.ext hlabels
        ((hstream.2.get (by simpa using hi') (by simpa using hi)).content_eq _)
    have hlines : lines (sr :: streams) =
        (sr.entries.map fun e => (sr.labels, e)) ++ lines streams := List.flatMap_cons
    rw [lokiBatches, List.flatMap_cons, List.map_append, ih, hlines, List.map_append,
      LogStore.batchElements, List.map_map, List.map_map]
    exact congrArg (· ++ _) hentries

/-! ### The reply -/

/-- A reply that is not cut has all lines. -/
theorem lines_repliedStreams {limit : ℕ} {streams : List StreamResult}
    (h : (lines streams).length ≤ limit) :
    lines (repliedStreams limit streams) = lines streams := by
  have hsum : (streams.map fun sr => sr.entries.length).sum = (lines streams).length := by
    rw [lines, List.length_flatMap]
    simp
  have hfilter : ∀ streams : List StreamResult,
      lines (streams.filter fun sr => !sr.entries.isEmpty) = lines streams := by
    intro streams
    induction streams with
    | nil => rfl
    | cons sr streams ih =>
      have hlines : ∀ rest, lines (sr :: rest) =
          (sr.entries.map fun e => (sr.labels, e)) ++ lines rest := fun _ => List.flatMap_cons
      rw [List.filter_cons]
      split_ifs with hempty
      · rw [hlines, hlines, ih]
      · have hnil : sr.entries = [] := by simpa using hempty
        rw [hlines, hnil, ih]
        rfl
  rw [repliedStreams, limitStreams, if_pos (hsum.trans_le h), hfilter]

/-- A reply is portable if each of its lines is, and the labels it is under have keys of their
own. -/
theorem portable_of_lines {streams : List StreamResult} (h : ∀ line ∈ lines streams,
    (line.1.map Prod.fst).Nodup ∧ Portable line.2) {sr : StreamResult} (hsr : sr ∈ streams)
    (hne : sr.entries ≠ []) : sr.Portable := by
  have hmem : ∀ e ∈ sr.entries, (sr.labels, e) ∈ lines streams := fun e he =>
    List.mem_flatMap.mpr ⟨sr, hsr, List.mem_map_of_mem he⟩
  obtain ⟨e, he⟩ := List.exists_mem_of_ne_nil _ hne
  exact ⟨(h _ (hmem e he)).1, fun e he => (h _ (hmem e he)).2⟩

end LogQL

namespace Server

variable {Rodeo Spur F64 : Type} [LinearOrder Spur] [Interner Rodeo Spur] [FloatOps F64]
  [SerdeJson F64]

open LogQL

/-- **The commit of a reply** adds what it says. -/
theorem Legible.commit_reply {s : Server Rodeo Spur F64} (h : s.Legible) (json : JsonCrate F64)
    {limit : ℕ} {streams : List StreamResult} {i : ℕ} {r : InFlight F64}
    (hready : s.ready i = some r)
    (hrequest : r.request = .lokiPush ((formatStreams limit streams).map (JsonStream.read json)))
    (hids : s.HasIds (.commit i)) (hportable : ∀ sr ∈ repliedStreams limit streams, sr.Portable) :
    (s.step (.commit i)).state.logStore.journal.map reported =
      s.state.logStore.journal.map reported +
        (answers (repliedStreams limit streams)).map fun y => (y.1, y.2.content) := by
  have hback : List.Forall₂ RestoresStream (repliedStreams limit streams)
      ((formatStreams limit streams).map (JsonStream.read json)) :=
    (forall₂_read_iff json limit streams).mpr fun sr hsr =>
      (restoresStream_iff json sr).mpr (hportable sr hsr)
  have hop : s.logOp (.commit i) = .add (r.request.logLines (seqsOf r)) := by
    rw [logOp, hready]
    rfl
  have hstep := (h.step hids).2.1
  rw [hop] at hstep
  have hjournal : (s.step (.commit i)).state.logStore.journal =
      s.state.logStore.journal + r.request.logLines (seqsOf r) := by
    generalize (s.step (.commit i)).state.logStore.journal = after at hstep ⊢
    cases hstep
    rfl
  rw [hjournal, Multiset.map_add, hrequest, IngestRequest.logLines, Multiset.map_coe,
    reported_lokiBatches hback, answers, Multiset.map_coe, List.map_map]
  rfl

omit [SerdeJson F64] in
/-- The lines of an answer are portable if those it stands for are. -/
theorem portable_of_answers {selected : Multiset (LabelBag × LogLine F64)}
    {streams : List StreamResult}
    (hanswers : answers streams = selected.map fun x => (x.1, LogLine.report x.2))
    (hportable : ∀ x ∈ selected, (x.1.map Prod.fst).Nodup ∧ Portable (LogLine.report x.2)) :
    ∀ line ∈ lines streams, (line.1.map Prod.fst).Nodup ∧ Portable line.2 := by
  intro line hline
  have hmem : ((line.1 : LabelBag), line.2) ∈ answers streams :=
    Multiset.mem_coe.mpr (List.mem_map_of_mem hline)
  rw [hanswers] at hmem
  obtain ⟨x, hx, heq⟩ := Multiset.mem_map.mp hmem
  obtain ⟨hlabels, hreport⟩ := Prod.mk.inj heq
  obtain ⟨hnodup, hentry⟩ := hportable x hx
  rw [hlabels, Multiset.map_coe, Multiset.coe_nodup] at hnodup
  exact ⟨hnodup, hreport ▸ hentry⟩

open Classical in
/-- **A query, and the push of its reply**: whatever went on at two servers, once the reply of the
first is pushed into the second and committed there, the second stands for what it stood for and the
lines that were answered: the newest of those that were pushed into the first, that no removal there
was to take, and that the query asks for. This is as long as the lines that are answered are
portable. -/
theorem moved_history (H : MinHeap HeapItem) (hH : H.Lawful HeapItem.key) (json : JsonCrate F64)
    (events : List (Event F64))
    (hids : Run.Along Server.step HasIds (start : Server Rodeo Spur F64) events)
    (hroomy : Run.Along Server.step Roomy (start : Server Rodeo Spur F64) events)
    (env : Env Rodeo Spur F64)
    (hstore : env.store =
      (Run.exec Server.step (start : Server Rodeo Spur F64) events).state.logStore)
    (matchers : List LogQLMatcher) (stages : List (PipelineStage F64)) (startNs endNs : ℤ)
    (limit : ℕ) :
    let pushed := Journal.history
      (Run.labels Server.step logOp (start : Server Rodeo Spur F64) events)
    let selected := pushed.filter (env.Selects matchers stages startNs endNs)
    (startNs ≤ endNs →
      (evaluateStreamQuery H env matchers stages startNs endNs (some limit)).isSome) ∧
    ∀ streams, evaluateStreamQuery H env matchers stages startNs endNs (some limit) = some streams →
      ∃ answered, env.IsAnswer matchers stages startNs endNs (some limit) pushed answered ∧
        ((∀ m ∈ convertMatchers matchers,
            m.Compiles fun pattern => (env.regexNew pattern).map Regex.isMatch) →
          (∀ x ∈ selected, (x.1.map Prod.fst).Nodup) →
          Multiset.IsTop (some limit) (fun x => x.2.timestampNs) selected answered) ∧
        ((∀ x ∈ answered, (x.1.map Prod.fst).Nodup ∧ Portable (LogLine.report x.2)) →
          ∀ others : List (Event F64),
          Run.Along Server.step HasIds (start : Server Rodeo Spur F64) others →
          let s := Run.exec Server.step (start : Server Rodeo Spur F64) others
          ∀ i r, s.ready i = some r →
          r.request = .lokiPush ((formatStreams limit streams).map (JsonStream.read json)) →
          s.HasIds (.commit i) →
            (s.step (.commit i)).state.logStore.journal.map reported =
              s.state.logStore.journal.map reported + answered.map reported) := by
  intro pushed selected
  have hjournal : env.store.journal = pushed := by
    rw [hstore]
    exact (journals_eq_history hids hroomy).1
  have hinv : env.store.Invariant := by
    rw [hstore]
    exact (fits_exec hids).logs
  constructor
  · intro hle
    exact Option.isSome_iff_exists.mpr
      (exists_evaluateStreamQuery H (fun _ _ hst => hinv.sorted hst) hle)
  intro streams heval
  obtain ⟨answered, hanswer, hanswers⟩ := evaluateStreamQuery_journal H hH hinv heval
  rw [hjournal] at hanswer
  refine ⟨answered, hanswer, hanswer.isTop, ?_⟩
  intro hportable others hids' s i r hready hrequest hcommit
  have hlegible : s.Legible := legible_exec hids'
  have hlines := portable_of_answers hanswers hportable
  have hlength : (lines streams).length ≤ limit := by
    obtain ⟨kept, -, -, -, -, -, hcard⟩ := hanswer
    have hsame := congrArg Multiset.card hanswers
    rw [answers, Multiset.coe_card, List.length_map, Multiset.card_map] at hsame
    exact (hsame.trans hcard).trans_le (min_le_left _ _)
  have hreplied := lines_repliedStreams hlength
  have hstreams : ∀ sr ∈ repliedStreams limit streams, sr.Portable := by
    intro sr hsr
    refine portable_of_lines (hreplied ▸ hlines) hsr ?_
    simpa using (List.mem_filter.mp hsr).2
  have hreply : answers (repliedStreams limit streams) = answers streams := by
    rw [answers, answers, hreplied]
  rw [hlegible.commit_reply json hready hrequest hcommit hstreams, hreply, hanswers,
    Multiset.map_map]
  rfl

/-- The reply with the line of service `a`. -/
def oneReply : List StreamResult := [⟨[("service", "a")], [⟨0, "line", none, none, []⟩]⟩]

/-- The reply arrives at another server. -/
def replyArrives : List (Event ℤ) :=
  [.arrive (.lokiPush ((formatStreams 5 oneReply).map (JsonStream.read envAfterPush.json))),
    .stamp 0]

open Classical in
/-- The line of service `a`, five lines at most, committed at another server. -/
theorem moved_history_replyArrives :
    let pushed := Journal.history
      (Run.labels Server.step logOp (start : Server VecRodeo ℕ ℤ) pushAndClear)
    let selected := pushed.filter
      (envAfterPush.Selects [⟨"service", .eq, "a"⟩] [.lineContains "li"] 0 9)
    let s := Run.exec Server.step (start : Server VecRodeo ℕ ℤ) replyArrives
    (s.step (.commit 0)).state.logStore.total = 1 ∧
      ∃ answered, Multiset.IsTop (some 5) (fun x => x.2.timestampNs) selected answered ∧
        (s.step (.commit 0)).state.logStore.journal.map reported =
          s.state.logStore.journal.map reported + answered.map reported := by
  intro pushed selected s
  have hpushed : ∀ x ∈ pushed, (x.1.map Prod.fst).Nodup ∧ Portable (LogLine.report x.2) := by
    intro x hx
    obtain rfl := List.mem_singleton.mp (Multiset.mem_of_le history_pushAndClear_le hx)
    exact ⟨Multiset.coe_nodup.mpr (List.nodup_singleton "service"), zero_mem_i64, .inr (.inl rfl),
      ⟨none, rfl⟩, ⟨none, rfl⟩, List.nodup_nil, fun _ hkv => absurd hkv List.not_mem_nil⟩
  obtain ⟨answered, -, htop, hcommit⟩ := (moved_history (MinHeap.ofList HeapItem.key id)
    (MinHeap.lawful_ofList _ fun l => List.Perm.refl l) envAfterPush.json pushAndClear
    along_hasIds_pushAndClear along_roomy_pushAndClear envAfterPush rfl
    [⟨"service", .eq, "a"⟩] [.lineContains "li"] 0 9 5).2 oneReply rfl
  have htop := htop (by simp [convertMatchers, LabelMatcher.Compiles])
    fun x hx => (hpushed x (Multiset.mem_of_mem_filter hx)).1
  refine ⟨by decide, answered, htop, ?_⟩
  refine hcommit (fun x hx => ?_) replyArrives ⟨trivial, trivial, trivial⟩ 0 _ rfl rfl
    fun r hr => ?_
  · exact hpushed x (Multiset.mem_of_mem_filter (Multiset.mem_of_le htop.le hx))
  · obtain rfl := Option.some.inj hr
    show 0 + 1 ≤ u64Max
    decide

end Server

end Aniani
