import Aniani.ForMathlib.FirstSeen
import Aniani.Query.HexIds
import Aniani.Query.PromQL.Selectors
import Aniani.Query.Reported
import Aniani.Store.Journal

/-!
# A trace, as the endpoint gives it

`GET /api/traces/{id}` gives the spans of a trace in the shape of OTLP, one batch for each service,
in the order the services first come up. Each span is in one batch, that of its service, and no
span is in two.

What is given of a span is what the store has of it, its attributes as texts.

## Main definitions

* `ExportedSpan`, `ExportedBatch`, `TraceReply` — the body of the reply
* `TraceStore.exportTrace` — the endpoint
* `PreparedSpan.exported` — a span, by what it says
* `TraceReply.spans` — the spans of a reply

## Main results

* `exportBatches_eq` — the batches, spelled out
* `TraceStore.exportTrace_journal` — the reply, by what the store stands for
-/

namespace Aniani

/-! ### The reply -/

/-- An event in the reply. -/
structure ExportedEvent where
  name : String
  timeUnixNano : String
  attributes : List (String × String)
  deriving DecidableEq

/-- A link in the reply. -/
structure ExportedLink where
  traceId : String
  spanId : String
  traceState : String
  flags : ℕ
  attributes : List (String × String)
  deriving DecidableEq

/-- A span in the reply. -/
structure ExportedSpan where
  traceId : String
  spanId : String
  /-- Empty for a root. -/
  parentSpanId : String
  name : String
  kind : ℤ
  startTimeUnixNano : String
  endTimeUnixNano : String
  /-- The code and the message. -/
  status : ℤ × String
  attributes : List (String × String)
  events : List ExportedEvent
  links : List ExportedLink
  deriving DecidableEq

/-- The spans of a service. -/
structure ExportedBatch where
  service : String
  spans : List ExportedSpan
  deriving DecidableEq

/-- The reply of the endpoint. -/
inductive TraceReply where
  | invalidTraceId
  | traceNotFound
  | ok (batches : List ExportedBatch)
  deriving DecidableEq

/-- The spans of a reply, each under its service. -/
def TraceReply.spans : TraceReply → Multiset (String × ExportedSpan)
  | .ok batches =>
    ↑(batches.flatMap fun batch => batch.spans.map fun span => (batch.service, span))
  | _ => 0

/-- `SpanKind::as_otlp`. -/
def SpanKind.asOtlp : SpanKind → ℤ
  | .unspecified => 0
  | .internal => 1
  | .server => 2
  | .client => 3
  | .producer => 4
  | .consumer => 5

/-- The code of a status. -/
def SpanStatus.code : SpanStatus → ℤ
  | .unset => 0
  | .ok => 1
  | .error => 2

section Export

variable {Rodeo Spur F64 : Type} [Interner Rodeo Spur] [Float64 F64] (r : Rodeo)

/-- `attribute_json`. -/
def attributeJson (attr : Spur × AttributeValue Spur F64) : String × String :=
  (Interner.resolve r attr.1, attributeText r attr.2)

/-- An event of a span. -/
def SpanEvent.exported (event : SpanEvent Spur F64) : ExportedEvent where
  name := Interner.resolve r event.name
  timeUnixNano := toString event.timeNs
  attributes := event.attributes.map (attributeJson r)

/-- A link of a span. -/
def SpanLink.exported (link : SpanLink Spur F64) : ExportedLink where
  traceId := hexText link.traceId.toList
  spanId := hexText link.spanId.toList
  traceState := (link.traceState.map (Interner.resolve r)).getD ""
  flags := link.flags
  attributes := link.attributes.map (attributeJson r)

/-- The JSON of a span. -/
def Span.exported (span : Span Spur F64) : ExportedSpan where
  traceId := hexText span.traceId.toList
  spanId := hexText span.spanId.toList
  parentSpanId := (span.parentSpanId.map fun id => hexText id.toList).getD ""
  name := Interner.resolve r span.name
  kind := span.kind.asOtlp
  startTimeUnixNano := toString span.startTimeNs
  endTimeUnixNano := toString (PromQL.i64SaturatingAdd span.startTimeNs span.durationNs)
  status := (span.status.code, (span.statusMessage.map (Interner.resolve r)).getD "")
  attributes := span.attributes.map (attributeJson r)
  events := span.events.map (SpanEvent.exported r)
  links := span.links.map (SpanLink.exported r)

end Export

/-- One turn of the loop over the spans: the services in the order they come up, and the spans of
each. -/
def fileSpan (acc : List String × FxHashMap String (List ExportedSpan))
    (span : String × ExportedSpan) : List String × FxHashMap String (List ExportedSpan) :=
  (if span.1 ∈ acc.2 then acc.1 else acc.1 ++ [span.1],
    acc.2.insert span.1 (((acc.2.lookup span.1).getD []) ++ [span.2]))

/-- The batches of a trace. -/
def exportBatches (spans : List (String × ExportedSpan)) : List ExportedBatch :=
  let filed := spans.foldl fileSpan ([], ∅)
  filed.1.map fun service => ⟨service, (filed.2.lookup service).getD []⟩

namespace TraceStore

variable {Rodeo Spur F64 : Type} [Interner Rodeo Spur] [Float64 F64]

/-- `get_trace` of the endpoint. -/
def exportTrace (s : TraceStore Rodeo Spur F64) (traceIdText : String) : TraceReply :=
  match (parseTraceId traceIdText.toList).bind (tryInto 16) with
  | none => .invalidTraceId
  | some traceId =>
    match s.getTrace traceId with
    | none => .traceNotFound
    | some spans => .ok (exportBatches (spans.map fun span =>
        (Interner.resolve s.interner span.serviceName, span.exported s.interner)))

end TraceStore

/-! ### The batches -/

/-- The spans of a service, in the order they came. -/
def spansOfService (spans : List (String × ExportedSpan)) (service : String) : List ExportedSpan :=
  (spans.filter fun span => span.1 == service).map Prod.snd

/-- What the loop has filed after each span. -/
theorem foldl_fileSpan (spans : List (String × ExportedSpan)) :
    (spans.foldl fileSpan ([], ∅)).1 = (spans.map Prod.fst).eraseDups ∧
      ∀ service, (spans.foldl fileSpan ([], ∅)).2.lookup service =
        if service ∈ spans.map Prod.fst then some (spansOfService spans service) else none := by
  induction spans using List.reverseRecOn with
  | nil => exact ⟨rfl, fun service => rfl⟩
  | append_singleton spans span ih =>
    obtain ⟨horder, hlook⟩ := ih
    have hmem : span.1 ∈ (spans.foldl fileSpan ([], ∅)).2 ↔ span.1 ∈ spans.map Prod.fst := by
      rw [Finmap.mem_iff, hlook]
      split <;> simp_all
    rw [List.foldl_concat, fileSpan, List.map_append, List.map_singleton, List.eraseDups_concat]
    refine ⟨by simp only [hmem, horder], fun service => ?_⟩
    rw [Finmap.lookup_insert_eq_ite, spansOfService, List.filter_append, List.map_append]
    by_cases hservice : service = span.1
    · have hbefore : ((spans.foldl fileSpan ([], ∅)).2.lookup span.1).getD [] =
          spansOfService spans span.1 := by
        rw [hlook]
        split
        · rfl
        · next hno =>
          refine (List.map_eq_nil_iff.mpr (List.filter_eq_nil_iff.mpr fun a ha heq => hno ?_)).symm
          exact eq_of_beq heq ▸ List.mem_map_of_mem ha
      subst hservice
      rw [if_pos rfl, hbefore, if_pos (by simp), spansOfService]
      simp
    · have hlast : [span].filter (fun span => span.1 == service) = [] :=
        List.filter_eq_nil_iff.mpr fun a ha heq =>
          hservice (List.mem_singleton.mp ha ▸ (eq_of_beq heq).symm)
      have hin : service ∈ spans.map Prod.fst ++ [span.1] ↔ service ∈ spans.map Prod.fst := by
        rw [List.mem_append, List.mem_singleton, or_iff_left hservice]
      rw [if_neg hservice, hlook, hlast, List.map_nil, List.append_nil, spansOfService]
      simp only [hin]

/-- **The batches, spelled out**: one for each service, in the order the services come up. -/
theorem exportBatches_eq (spans : List (String × ExportedSpan)) :
    exportBatches spans = (spans.map Prod.fst).eraseDups.map fun service =>
      ⟨service, spansOfService spans service⟩ := by
  obtain ⟨horder, hlook⟩ := foldl_fileSpan spans
  rw [exportBatches, horder]
  refine List.map_congr_left fun service hservice => ?_
  rw [hlook, if_pos (List.mem_eraseDups.mp hservice)]
  rfl

theorem nodup_service_exportBatches (spans : List (String × ExportedSpan)) :
    ((exportBatches spans).map ExportedBatch.service).Nodup := by
  rw [exportBatches_eq, List.map_map]
  exact (List.map_id' (spans.map Prod.fst).eraseDups).symm ▸ List.nodup_eraseDups _

theorem spans_ne_nil_exportBatches {spans : List (String × ExportedSpan)} {batch : ExportedBatch}
    (h : batch ∈ exportBatches spans) : batch.spans ≠ [] := by
  rw [exportBatches_eq] at h
  obtain ⟨service, hservice, rfl⟩ := List.mem_map.mp h
  obtain ⟨span, hspan, rfl⟩ := List.mem_map.mp (List.mem_eraseDups.mp hservice)
  exact List.ne_nil_of_mem (List.mem_map_of_mem
    (List.mem_filter.mpr ⟨hspan, beq_self_eq_true span.1⟩))

/-- **Each span is in one batch**, that of its service. -/
theorem exportBatches_perm (spans : List (String × ExportedSpan)) :
    ((exportBatches spans).flatMap fun batch =>
      batch.spans.map fun span => (batch.service, span)).Perm spans := by
  have hgroup : ∀ service, (spansOfService spans service).map (fun span => (service, span)) =
      spans.filter fun span => span.1 == service := by
    intro service
    rw [spansOfService, List.map_map]
    refine (List.map_congr_left fun span hspan => ?_).trans (List.map_id' _)
    have hkey : span.1 = service := eq_of_beq (List.mem_filter.mp hspan).2
    rw [← hkey]
    rfl
  rw [exportBatches_eq, List.flatMap_map]
  simp only [hgroup]
  rw [List.flatMap_filter_eraseDups]
  exact List.sortByKey_perm _ _

/-! ### What a span says -/

section Spec

variable {F64 : Type} [Float64 F64]

/-- Attributes in the reply. -/
def exportedAttrs (attrs : PreparedAttrs F64) : List (String × String) :=
  attrs.map fun attr => (attr.1, attr.2.text)

/-- An event, by what it says. -/
def PreparedEvent.exported (event : PreparedEvent F64) : ExportedEvent where
  name := event.name
  timeUnixNano := toString event.timeNs
  attributes := exportedAttrs event.attributes

/-- A link, by what it says. -/
def PreparedLink.exported (link : PreparedLink F64) : ExportedLink where
  traceId := hexText link.traceId.toList
  spanId := hexText link.spanId.toList
  traceState := link.traceState.getD ""
  flags := link.flags
  attributes := exportedAttrs link.attributes

/-- A span, by what it says. -/
def PreparedSpan.exported (p : PreparedSpan F64) : ExportedSpan where
  traceId := hexText p.traceId.toList
  spanId := hexText p.spanId.toList
  parentSpanId := (p.parentSpanId.map fun id => hexText id.toList).getD ""
  name := p.name
  kind := p.kind.asOtlp
  startTimeUnixNano := toString p.startTimeNs
  endTimeUnixNano := toString (PromQL.i64SaturatingAdd p.startTimeNs p.durationNs)
  status := (p.status.code, p.statusMessage.getD "")
  attributes := exportedAttrs p.attributes
  events := p.events.map PreparedEvent.exported
  links := p.links.map PreparedLink.exported

end Spec

/-! ### The reply, by what the store stands for -/

section Journal

variable {Rodeo Spur F64 : Type} [Interner Rodeo Spur] [Float64 F64]

theorem SpanEvent.exported_eq (r : Rodeo) (event : SpanEvent Spur F64) :
    event.exported r = (event.resolved r).exported :=
  congrArg (ExportedEvent.mk _ _) (map_attributeText_eq r event.attributes)

theorem SpanLink.exported_eq (r : Rodeo) (link : SpanLink Spur F64) :
    link.exported r = (link.resolved r).exported :=
  congrArg (ExportedLink.mk _ _ _ _) (map_attributeText_eq r link.attributes)

/-- **The JSON of a span** is that of what it says. -/
theorem Span.exported_eq (r : Rodeo) (span : Span Spur F64) :
    span.exported r = (span.resolved r).exported := by
  rw [Span.exported, PreparedSpan.exported, ExportedSpan.mk.injEq]
  refine ⟨rfl, rfl, rfl, rfl, rfl, rfl, rfl, rfl, map_attributeText_eq r span.attributes, ?_, ?_⟩
  · rw [Span.resolved, List.map_map]
    exact List.map_congr_left fun event _ => SpanEvent.exported_eq r event
  · rw [Span.resolved, List.map_map]
    exact List.map_congr_left fun link _ => SpanLink.exported_eq r link

namespace TraceStore

omit [Float64 F64] in
/-- What is filed under an id says so. -/
theorem Readable.traceId_of_mem {s : TraceStore Rodeo Spur F64} (h : s.Readable) {t : TraceId}
    {spans : List (Span Spur F64)} (hst : s.traces.lookup t = some spans) :
    ∀ p ∈ spans.map (Span.resolved s.interner), p.traceId = t :=
  List.forall_mem_map.mpr fun span hspan => h.filed t span (mem_spansOf hst hspan)

omit [Float64 F64] in
/-- **A trace is what the store has under its id.** -/
theorem Readable.coe_getTrace {s : TraceStore Rodeo Spur F64} (h : s.Readable) (t : TraceId) :
    (((s.getTrace t).getD []).map (Span.resolved s.interner) : Multiset (PreparedSpan F64)) =
      s.journal.filter fun p => p.traceId = t := by
  have hother : ∀ t' spans, s.traces.lookup t' = some spans → t' ≠ t →
      ((spans.map (Span.resolved s.interner)).filter fun p => decide (p.traceId = t)) = [] := by
    intro t' spans hst hne
    refine List.filter_eq_nil_iff.mpr fun p hp heq => hne ?_
    rw [← h.traceId_of_mem hst p hp, of_decide_eq_true heq]
  rw [journal, Finmap.filter_flatValues, getTrace]
  cases hst : s.traces.lookup t with
  | none =>
    refine Finmap.coe_flatMap_eq_flatValues (k := fun _ => [])
      (List.nodup_nil : ([] : List TraceId).Nodup) (by simp) fun t' spans hst' _ =>
        hother t' spans hst' ?_
    rintro rfl
    exact absurd (hst'.symm.trans hst) (Option.some_ne_none _)
  | some spans =>
    rw [Option.getD_some,
      ← List.flatMap_singleton (fun _ => spans.map (Span.resolved s.interner)) t]
    refine Finmap.coe_flatMap_eq_flatValues (List.nodup_singleton t) (fun t' ht' => ?_)
      fun t' spans' hst' hnot => hother t' spans' hst' fun heq =>
        hnot (List.mem_singleton.mpr heq)
    obtain rfl := List.mem_singleton.mp ht'
    refine ⟨spans, hst, (List.filter_eq_self.mpr fun p hp => ?_).symm⟩
    exact decide_eq_true (h.traceId_of_mem hst p hp)

/-- Batches that give some spans: each once, under its service, one batch for a service. -/
structure Gives (batches : List ExportedBatch) (spans : Multiset (PreparedSpan F64)) : Prop where
  services : (batches.map ExportedBatch.service).Nodup
  nonempty : ∀ batch ∈ batches, batch.spans ≠ []
  spans : (batches.flatMap fun batch => batch.spans.map fun span => (batch.service, span) :
    Multiset (String × ExportedSpan)) = spans.map fun p => (p.serviceName, p.exported)

/-- **The endpoint gives the spans that are stored under the id**, and says that there is no such
trace exactly if there are none. -/
theorem exportTrace_journal {s : TraceStore Rodeo Spur F64} [LinearOrder Spur] (h : s.Invariant)
    (hread : s.Readable) {text : String} {t : TraceId}
    (htext : (parseTraceId text.toList).bind (tryInto 16) = some t) :
    ((s.journal.filter fun p => p.traceId = t) = 0 → s.exportTrace text = .traceNotFound) ∧
      ((s.journal.filter fun p => p.traceId = t) ≠ 0 → ∃ batches,
        s.exportTrace text = .ok batches ∧
          Gives batches (s.journal.filter fun p => p.traceId = t)) := by
  rw [← hread.coe_getTrace t, exportTrace, htext]
  dsimp only
  cases hst : s.getTrace t with
  | none => exact ⟨fun _ => rfl, fun hne => absurd rfl hne⟩
  | some spans =>
    have hne : spans ≠ [] := h.nonempty hst
    refine ⟨fun hzero => absurd hzero ?_, fun _ => ⟨_, rfl, ?_, ?_, ?_⟩⟩
    · simpa using hne
    · exact nodup_service_exportBatches _
    · exact fun batch hbatch => spans_ne_nil_exportBatches hbatch
    · refine (Multiset.coe_eq_coe.mpr (exportBatches_perm _)).trans ?_
      rw [Option.getD_some, Multiset.map_coe, List.map_map]
      exact congrArg _ (List.map_congr_left fun span _ =>
        congrArg (Prod.mk _) (Span.exported_eq s.interner span))

/-- **What a reply says of a trace**, by what is stored under its id. -/
theorem spans_exportTrace {s : TraceStore Rodeo Spur F64} [LinearOrder Spur] (h : s.Invariant)
    (hread : s.Readable) {text : String} {t : TraceId}
    (htext : (parseTraceId text.toList).bind (tryInto 16) = some t) :
    (s.exportTrace text).spans =
        (s.journal.filter fun p => p.traceId = t).map (fun p => (p.serviceName, p.exported)) ∧
      (s.exportTrace text = .traceNotFound ↔ (s.exportTrace text).spans = 0) := by
  obtain ⟨hnone, hsome⟩ := exportTrace_journal h hread htext
  by_cases hzero : (s.journal.filter fun p => p.traceId = t) = 0
  · rw [hnone hzero, hzero]
    exact ⟨rfl, iff_of_true rfl rfl⟩
  · obtain ⟨batches, hok, hgives⟩ := hsome hzero
    rw [hok]
    have hspans : (TraceReply.ok batches).spans = _ := hgives.spans
    refine ⟨hspans, iff_of_false TraceReply.noConfusion fun hempty => hzero ?_⟩
    rwa [hspans, Multiset.map_eq_zero] at hempty

end TraceStore

end Journal

end Aniani
