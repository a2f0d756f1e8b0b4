import Aniani.Query.TraceQL.Export
import Mathlib.Tactic.IntervalCases

/-!
# A trace, as it is sent

What the trace endpoint should give of a request is spelled out on the request. Every attribute is a
pair of texts. In front are the scalars of the resource, under `resource.`, then what is known of
the scope, under `scope.`, then the attributes of the span, under `span.`; those of events and links
keep their keys. Ids and times are digits, a time at most the last one of an `i64`.

Ingest files the spans with what was interned, keeps a duration in place of the end, and numbers for
kinds and codes. What is given of a span is what was sent nevertheless.

## Main definitions

* `AnyValue.text`, `sentAttrs` — values and attributes that are sent, as texts
* `OtlpSpan.exported` — what a span should look like
* `sentSpans` — the spans of a trace that a request sends

## Main results

* `exported_prepareSpan` — what is sent and what is given, of one span
* `map_resourceElements` — and of a request
-/

namespace Aniani

/-! ### What is sent -/

section Sent

variable {F64 : Type} [Float64 F64]

mutual

/-- The text of a value that is sent, none if it is not set. -/
def AnyValue.text : AnyValue F64 → Option String
  | .unset => none
  | .stringValue s => some s
  | .boolValue b => some (toString b)
  | .intValue i => some (toString i)
  | .doubleValue d => some (Float64.display d)
  | .arrayValue values => some ("[" ++ ", ".intercalate (elementTexts values) ++ "]")
  | .kvlistValue values => some ("\x7b" ++ ", ".intercalate (pairTextsSent values) ++ "\x7d")
  | .bytesValue b => some ("0x" ++ hexText b)

/-- The elements of an array that is sent. -/
def elementTexts : List (AnyValue F64) → List String
  | [] => []
  | value :: values => value.text.toList ++ elementTexts values

/-- The entries of a key-value list that is sent. -/
def pairTextsSent : List (String × Option (AnyValue F64)) → List String
  | [] => []
  | (_, none) :: values => pairTextsSent values
  | (key, some value) :: values =>
    (value.text.map fun text => key ++ "=" ++ text).toList ++ pairTextsSent values

end

/-- A string, a number or a truth value. -/
def AnyValue.isScalar : AnyValue F64 → Bool
  | .stringValue _ | .boolValue _ | .intValue _ | .doubleValue _ => true
  | _ => false

/-- Attributes that are sent, as texts with a prefix to their keys. -/
def sentAttrs (before : String) (attrs : List (KeyValue F64)) : List (String × String) :=
  attrs.filterMap fun attr => (attr.value.bind AnyValue.text).map fun text =>
    (before ++ attr.key, text)

/-- The attributes of a resource that are scalars. -/
def scalarAttrs (resource : Option (Resource F64)) : List (KeyValue F64) :=
  (resource.elim [] Resource.attributes).filter fun attr => attr.value.any AnyValue.isScalar

/-- The service of what a resource sends. -/
def sentService (resource : Option (Resource F64)) : String :=
  ((sentAttrs "" (scalarAttrs resource)).lookup "service.name").getD "unknown"

/-- The attributes of a scope, its name and its version in front. -/
def sentScopeAttrs (scope : Option (InstrumentationScope F64)) : List (String × String) :=
  scope.elim [] fun scope =>
    ([("scope.name", scope.name), ("scope.version", scope.version)].filter fun attr =>
      decide (attr.2 ≠ "")) ++ sentAttrs "scope." scope.attributes

/-- Bytes that are an id: so many, and not all zero. -/
def isId (n : ℕ) (bytes : List UInt8) : Bool := decide (bytes.length = n) && bytes.any (· != 0)

/-- A time, cut off at the end of the range of an `i64`. -/
def timeDigits (unixNano : ℕ) : String := toString (min (unixNano : ℤ) i64Max)

/-- An event that is sent, as it should be given. -/
def OtlpEvent.exported (event : OtlpEvent F64) : ExportedEvent where
  name := event.name
  timeUnixNano := timeDigits event.timeUnixNano
  attributes := sentAttrs "" event.attributes

/-- The same of a link. -/
def OtlpLink.exported (link : OtlpLink F64) : ExportedLink where
  traceId := hexText link.traceId
  spanId := hexText link.spanId
  traceState := link.traceState
  flags := link.flags
  attributes := sentAttrs "" link.attributes

/-- The same of a span, with the attributes of its resource and its scope in front. A code that OTLP
does not have becomes zero, and a link without two ids is left out. -/
def OtlpSpan.exported (resource : Option (Resource F64))
    (scope : Option (InstrumentationScope F64)) (span : OtlpSpan F64) : ExportedSpan where
  traceId := hexText span.traceId
  spanId := hexText span.spanId
  parentSpanId := if isId 8 span.parentSpanId then hexText span.parentSpanId else ""
  name := span.name
  kind := if 1 ≤ span.kind ∧ span.kind ≤ 5 then span.kind else 0
  startTimeUnixNano := timeDigits span.startTimeUnixNano
  endTimeUnixNano := timeDigits span.endTimeUnixNano
  status := ((span.status.map fun status =>
      if 1 ≤ status.2 ∧ status.2 ≤ 2 then status.2 else 0).getD 0,
    (span.status.map Prod.fst).getD "")
  attributes := sentAttrs "resource." (scalarAttrs resource) ++ sentScopeAttrs scope ++
    sentAttrs "span." span.attributes
  events := span.events.map OtlpEvent.exported
  links := (span.links.filter fun link => isId 16 link.traceId && isId 8 link.spanId).map
    OtlpLink.exported

/-- The spans of a trace that a request sends, each with its service. -/
def sentSpans (request : ExportTraceServiceRequest F64) (t : TraceId) :
    List (String × ExportedSpan) :=
  request.flatMap fun resourceSpans => resourceSpans.scopeSpans.flatMap fun scopeSpans =>
    (scopeSpans.spans.filter fun span =>
      isId 16 span.traceId && isId 8 span.spanId && decide (span.traceId = t.toList)).map
        fun span => (sentService resourceSpans.resource,
          span.exported resourceSpans.resource scopeSpans.scope)

/-! ### What is sent and what is given -/

mutual

/-- **The text of a value** is the one it was sent with. -/
theorem text_convertAnyValue : (value : AnyValue F64) →
    (convertAnyValue value).map PreparedAttributeValue.text = value.text
  | .unset => rfl
  | .stringValue _ => rfl
  | .boolValue _ => rfl
  | .intValue _ => rfl
  | .doubleValue _ => rfl
  | .arrayValue values => by
    rw [convertAnyValue, AnyValue.text, Option.map_some, PreparedAttributeValue.text,
      valueTexts_convertAnyValues]
  | .kvlistValue values => by
    rw [convertAnyValue, AnyValue.text, Option.map_some, PreparedAttributeValue.text,
      entryTexts_convertKeyValues]
  | .bytesValue _ => rfl

theorem valueTexts_convertAnyValues : (values : List (AnyValue F64)) →
    valueTexts (convertAnyValues values) = elementTexts values
  | [] => rfl
  | value :: values => by
    rw [convertAnyValues, elementTexts, ← text_convertAnyValue value,
      ← valueTexts_convertAnyValues values]
    cases convertAnyValue value <;> rfl

theorem entryTexts_convertKeyValues : (values : List (String × Option (AnyValue F64))) →
    entryTexts (convertKeyValues values) = pairTextsSent values
  | [] => rfl
  | (_, none) :: values => by
    rw [convertKeyValues, pairTextsSent, entryTexts_convertKeyValues values]
  | (key, some value) :: values => by
    rw [convertKeyValues, pairTextsSent, ← text_convertAnyValue value,
      ← entryTexts_convertKeyValues values]
    cases convertAnyValue value <;> rfl

end

theorem exportedAttrs_prepareAttrs (before : String) (attrs : List (KeyValue F64)) :
    exportedAttrs (prepareAttrs before attrs) = sentAttrs before attrs := by
  rw [exportedAttrs, prepareAttrs, sentAttrs, List.map_filterMap]
  refine List.filterMap_congr fun attr _ => ?_
  cases attr.value with
  | none => rfl
  | some value =>
    rw [Option.bind_some, Option.bind_some, ← text_convertAnyValue]
    cases convertAnyValue value <;> rfl

/-- What a scalar is as a label is its text. -/
theorem anyValueToString_eq (value : AnyValue F64) :
    anyValueToString value = if value.isScalar then value.text else none := by
  cases value <;> rfl

theorem extractResourceLabels_eq (resource : Option (Resource F64)) :
    extractResourceLabels resource = sentAttrs "" (scalarAttrs resource) := by
  cases resource with
  | none => rfl
  | some resource =>
    show extractKeyValues resource.attributes = _
    rw [extractKeyValues, sentAttrs, scalarAttrs, List.filterMap_filter]
    refine List.filterMap_congr fun attr _ => ?_
    cases attr.value with
    | none => rfl
    | some value =>
      rw [Option.bind_some, anyValueToString_eq, Option.any_some, String.empty_append]
      split <;> rfl

theorem exportedAttrs_prepareResourceAttrs (resource : Option (Resource F64)) :
    exportedAttrs (prepareResourceAttrs resource) =
      sentAttrs "resource." (scalarAttrs resource) := by
  rw [exportedAttrs, prepareResourceAttrs, extractResourceLabels_eq, List.map_map, sentAttrs,
    sentAttrs, List.map_filterMap]
  refine List.filterMap_congr fun attr _ => ?_
  rw [Option.map_map]
  refine congrArg (fun f => Option.map f _) (funext fun text => ?_)
  exact congrArg (fun key => ("resource." ++ key, text)) String.empty_append

theorem resourceService_eq (resource : Option (Resource F64)) :
    resourceService resource = sentService resource := by
  have hlookup (attrs : List (String × String)) :
      (attrs.find? fun attr => attr.1 == "service.name").map Prod.snd =
        attrs.lookup "service.name" := by
    induction attrs with
    | nil => rfl
    | cons attr attrs ih =>
      rw [List.find?_cons, List.lookup_cons, Bool.beq_comm]
      cases "service.name" == attr.1 with
      | true => rfl
      | false => exact ih
  rw [resourceService, extractResourceLabels_eq, hlookup, sentService]

theorem exportedAttrs_prepareScopeAttrs (scope : Option (InstrumentationScope F64)) :
    exportedAttrs (prepareScopeAttrs scope) = sentScopeAttrs scope := by
  cases scope with
  | none => rfl
  | some scope =>
    show exportedAttrs (_ ++ _ ++ _) = _ ++ _
    rw [exportedAttrs, List.map_append, List.map_append, List.filter_cons, List.filter_cons,
      List.filter_nil]
    refine congrArg₂ (· ++ ·) ?_ (exportedAttrs_prepareAttrs "scope." scope.attributes)
    by_cases hname : scope.name = "" <;> by_cases hversion : scope.version = "" <;>
      simp [hname, hversion, PreparedAttributeValue.text]

theorem toList_of_nonZeroId {n : ℕ} {bytes : List UInt8} {id : Vector UInt8 n}
    (h : nonZeroId n bytes = some id) : id.toList = bytes := by
  rw [nonZeroId] at h
  split at h
  · exact absurd h nofun
  · rw [tryInto] at h
    split at h
    · obtain rfl := Option.some.inj h
      rfl
    · exact absurd h nofun

theorem isSome_nonZeroId (n : ℕ) (bytes : List UInt8) :
    (nonZeroId n bytes).isSome = isId n bytes := by
  have hany : (bytes.any fun b => b != 0) = !allZero bytes := by
    rw [allZero, List.not_all_eq_any_not]
    rfl
  rw [isId, hany, nonZeroId, tryInto]
  cases allZero bytes with
  | true => simp
  | false =>
    by_cases hlength : bytes.length = n
    · simp [hlength]
    · simp [hlength]

theorem getD_nonZeroId (n : ℕ) (bytes : List UInt8) :
    ((nonZeroId n bytes).map fun id => hexText id.toList).getD "" =
      if isId n bytes then hexText bytes else "" := by
  rw [← isSome_nonZeroId]
  cases hid : nonZeroId n bytes with
  | none => rfl
  | some id =>
    show hexText id.toList = hexText bytes
    rw [toList_of_nonZeroId hid]

/-- **The end of a span is given as it was sent**: the duration is kept, and added to the start
again, and neither leaves the range. -/
theorem endTime_eq (start stop : ℕ) :
    PromQL.i64SaturatingAdd (u64ToI64Saturating start)
      (i64SaturatingSub (u64ToI64Saturating stop) (u64ToI64Saturating start)) =
        u64ToI64Saturating stop := by
  unfold PromQL.i64SaturatingAdd i64SaturatingSub u64ToI64Saturating
  have hmin : i64Min = -9223372036854775808 := rfl
  have hmax : i64Max = 9223372036854775807 := rfl
  omega

theorem asOtlp_fromOtlp (kind : ℤ) :
    (SpanKind.fromOtlp kind).asOtlp = if 1 ≤ kind ∧ kind ≤ 5 then kind else 0 := by
  by_cases h : 1 ≤ kind ∧ kind ≤ 5
  · obtain ⟨hlo, hhi⟩ := h
    interval_cases kind <;> rfl
  · rw [if_neg h, SpanKind.fromOtlp]
    · rfl
    all_goals omega

theorem code_spanStatus (status : Option (String × ℤ)) :
    (spanStatus status).code = (status.map fun status =>
      if 1 ≤ status.2 ∧ status.2 ≤ 2 then status.2 else 0).getD 0 := by
  cases status with
  | none => rfl
  | some status =>
    obtain ⟨message, code⟩ := status
    show (spanStatus (some (message, code))).code = if 1 ≤ code ∧ code ≤ 2 then code else 0
    by_cases h : 1 ≤ code ∧ code ≤ 2
    · obtain ⟨hlo, hhi⟩ := h
      interval_cases code <;> rfl
    · rw [if_neg h, spanStatus]
      · rfl
      · rintro _ heq
        obtain ⟨-, rfl⟩ := Prod.mk.inj (Option.some.inj heq)
        omega
      · rintro _ heq
        obtain ⟨-, rfl⟩ := Prod.mk.inj (Option.some.inj heq)
        omega

theorem getD_filter_ne_empty (message : Option String) :
    (message.filter fun message => decide (message ≠ "")).getD "" = message.getD "" := by
  cases message with
  | none => rfl
  | some message =>
    rw [Option.filter_some]
    split
    · rfl
    · next h => simpa using h

omit [Float64 F64] in
/-- A walk that keeps the elements that pass a test. -/
theorem map_filterMap_eq_map_filter {α β γ : Type} {g : α → Option β} {f : β → γ} {p : α → Bool}
    {h : α → γ} (heq : ∀ a, (g a).map f = if p a then some (h a) else none) (l : List α) :
    (l.filterMap g).map f = (l.filter p).map h := by
  rw [List.map_filterMap]
  induction l with
  | nil => rfl
  | cons a l ih =>
    rw [List.filterMap_cons, heq, List.filter_cons]
    cases p a with
    | true => exact congrArg (List.cons _) ih
    | false => exact ih

theorem exported_prepareLink (link : OtlpLink F64) :
    (prepareLink link).map PreparedLink.exported =
      if isId 16 link.traceId && isId 8 link.spanId then some link.exported else none := by
  rw [prepareLink, ← isSome_nonZeroId, ← isSome_nonZeroId]
  cases htrace : nonZeroId 16 link.traceId with
  | none => rfl
  | some traceId =>
    cases hspan : nonZeroId 8 link.spanId with
    | none => rfl
    | some spanId =>
      have hstate : (if link.traceState = "" then none else some link.traceState).getD "" =
          link.traceState := by
        split
        · next h => exact h.symm
        · rfl
      show some (PreparedLink.exported _) = some _
      rw [PreparedLink.exported, OtlpLink.exported, hstate, exportedAttrs_prepareAttrs,
        ← toList_of_nonZeroId htrace, ← toList_of_nonZeroId hspan]

theorem exported_prepareEvent (event : OtlpEvent F64) :
    (prepareEvent event).exported = event.exported := by
  rw [PreparedEvent.exported, OtlpEvent.exported, prepareEvent, exportedAttrs_prepareAttrs]
  rfl

/-- **A span that is sent is given as it was**, for all that its attributes have become texts. -/
theorem exported_prepareSpan {span : OtlpSpan F64} {ids : TraceId × SpanId}
    (hids : spanIds span = some ids) (serviceName : String) (seq : ℕ)
    (resource : Option (Resource F64)) (scope : Option (InstrumentationScope F64)) :
    ((prepareSpan serviceName seq ids span).under
      (prepareResourceAttrs resource ++ prepareScopeAttrs scope)).exported =
        span.exported resource scope := by
  obtain ⟨htrace, hspan⟩ : nonZeroId 16 span.traceId = some ids.1 ∧
      nonZeroId 8 span.spanId = some ids.2 := by
    rw [spanIds] at hids
    split at hids
    · next ht hs =>
      obtain rfl := Option.some.inj hids
      exact ⟨ht, hs⟩
    · exact absurd hids nofun
  have hattrs : exportedAttrs (prepareResourceAttrs resource ++ prepareScopeAttrs scope ++
      prepareAttrs "span." span.attributes) =
        sentAttrs "resource." (scalarAttrs resource) ++ sentScopeAttrs scope ++
          sentAttrs "span." span.attributes := by
    rw [← exportedAttrs_prepareResourceAttrs, ← exportedAttrs_prepareScopeAttrs,
      ← exportedAttrs_prepareAttrs]
    simp [exportedAttrs]
  have hevents : (span.events.map prepareEvent).map PreparedEvent.exported =
      span.events.map OtlpEvent.exported := by
    rw [List.map_map]
    exact List.map_congr_left fun event _ => exported_prepareEvent event
  rw [PreparedSpan.exported, OtlpSpan.exported, ExportedSpan.mk.injEq]
  refine ⟨?_, ?_, getD_nonZeroId 8 _, rfl, asOtlp_fromOtlp _, rfl, ?_, ?_, hattrs, hevents,
    map_filterMap_eq_map_filter exported_prepareLink span.links⟩
  · exact congrArg hexText (toList_of_nonZeroId htrace)
  · exact congrArg hexText (toList_of_nonZeroId hspan)
  · exact congrArg toString (endTime_eq span.startTimeUnixNano span.endTimeUnixNano)
  · exact congrArg₂ Prod.mk (code_spanStatus _) (getD_filter_ne_empty _)

/-! ### A request -/

omit [Float64 F64] in
/-- The two ids of a span, and that the first is the one of the trace. -/
theorem filter_spanIds (span : OtlpSpan F64) (t : TraceId) :
    ((spanIds span).filter fun ids => decide (ids.1 = t)).isSome =
      (isId 16 span.traceId && isId 8 span.spanId && decide (span.traceId = t.toList)) := by
  rw [spanIds, ← isSome_nonZeroId, ← isSome_nonZeroId]
  cases htrace : nonZeroId 16 span.traceId with
  | none => rfl
  | some traceId =>
    cases hspan : nonZeroId 8 span.spanId with
    | none => rfl
    | some spanId =>
      have hsame : traceId = t ↔ span.traceId = t.toList := by
        rw [← toList_of_nonZeroId htrace, Vector.toList_inj]
      by_cases h : traceId = t
      · simp [h, hsame.mp h, Option.filter]
      · simp [h, mt hsame.mpr h, Option.filter]

/-- **The spans of a scope** are given as they were sent. -/
theorem map_scopeElements (seqs : ℕ → ℕ) (n : ℕ) (resource : Option (Resource F64))
    (scopeSpans : ScopeSpans F64) (t : TraceId) :
    ((TraceStore.scopeElements (prepareResourceAttrs resource)
        (prepareScopeAttrs scopeSpans.scope, (validSpans scopeSpans.spans).mapIdx fun i span =>
          prepareSpan (resourceService resource) (seqs (n + i)) span.1 span.2)).filter
            fun p => decide (p.traceId = t)).map (fun p => (p.serviceName, p.exported)) =
      (scopeSpans.spans.filter fun span =>
        isId 16 span.traceId && isId 8 span.spanId && decide (span.traceId = t.toList)).map
          fun span => (sentService resource, span.exported resource scopeSpans.scope) := by
  have hvalid : ∀ span ∈ validSpans scopeSpans.spans, spanIds span.2 = some span.1 := by
    intro span hspan
    obtain ⟨sent, -, hsent⟩ := List.mem_filterMap.mp hspan
    obtain ⟨ids, hids, rfl⟩ := Option.map_eq_some_iff.mp hsent
    exact hids
  -- neither the number of a span nor its place shows
  have hplaces : ((TraceStore.scopeElements (prepareResourceAttrs resource)
      (prepareScopeAttrs scopeSpans.scope, (validSpans scopeSpans.spans).mapIdx fun i span =>
        prepareSpan (resourceService resource) (seqs (n + i)) span.1 span.2)).filter
          fun p => decide (p.traceId = t)).map (fun p => (p.serviceName, p.exported)) =
      ((validSpans scopeSpans.spans).filter fun span => decide (span.1.1 = t)).map fun span =>
        (sentService resource, span.2.exported resource scopeSpans.scope) := by
    conv_rhs => rw [← List.zipIdx_map_fst 0 (validSpans scopeSpans.spans)]
    rw [TraceStore.scopeElements, List.mapIdx_eq_zipIdx_map, List.map_map, List.filter_map,
      List.filter_map, List.map_map, List.map_map]
    refine List.map_congr_left fun span hspan => ?_
    have hmem := List.mem_map_of_mem (f := Prod.fst) (List.mem_of_mem_filter hspan)
    rw [List.zipIdx_map_fst] at hmem
    exact Prod.ext (resourceService_eq resource)
      (exported_prepareSpan (hvalid _ hmem) _ _ resource scopeSpans.scope)
  rw [hplaces, validSpans, List.filter_filterMap]
  refine map_filterMap_eq_map_filter (fun span => ?_) scopeSpans.spans
  rw [← filter_spanIds]
  cases spanIds span with
  | none => rfl
  | some ids => by_cases h : ids.1 = t <;> simp [h, Option.filter]

/-- **The spans of a request** are given as they were sent. -/
theorem map_resourceElements (seqs : ℕ → ℕ) (n : ℕ) (request : ExportTraceServiceRequest F64)
    (t : TraceId) :
    (((preparedResources seqs n request).flatMap TraceStore.resourceElements).filter
      fun p => decide (p.traceId = t)).map (fun p => (p.serviceName, p.exported)) =
        sentSpans request t := by
  induction request generalizing n with
  | nil => rfl
  | cons resourceSpans request ih =>
    have hscopes (scopes : List (ScopeSpans F64)) (n : ℕ) :
        (((scopeGroups seqs (resourceService resourceSpans.resource) n scopes).flatMap
          (TraceStore.scopeElements (prepareResourceAttrs resourceSpans.resource))).filter
            fun p => decide (p.traceId = t)).map (fun p => (p.serviceName, p.exported)) =
        scopes.flatMap fun scopeSpans => (scopeSpans.spans.filter fun span =>
          isId 16 span.traceId && isId 8 span.spanId && decide (span.traceId = t.toList)).map
            fun span => (sentService resourceSpans.resource,
              span.exported resourceSpans.resource scopeSpans.scope) := by
      induction scopes generalizing n with
      | nil => rfl
      | cons scopeSpans scopes ih =>
        rw [scopeGroups, List.flatMap_cons, List.flatMap_cons, List.filter_append,
          List.map_append, map_scopeElements, ih]
    rw [preparedResources, List.flatMap_cons, List.filter_append, List.map_append, ih, sentSpans,
      sentSpans, List.flatMap_cons, TraceStore.resourceElements, hscopes]

end Sent

end Aniani
