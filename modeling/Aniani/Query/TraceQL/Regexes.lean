import Aniani.Query.TraceQL.StructuralResults
import Aniani.Query.TraceQL.Conditions

/-!
# Regular expressions in conditions

A regular expression is compiled in one pass over the conditions and used in another. The parser lets
`=~` stand in four kinds of conditions: on the name of a span, on an attribute, on the name of an event
and on an attribute of one. The first pass knows the first two only; a condition on an event finds
nothing compiled, and never holds.

## Main definitions

* `SpanCondition.regexPattern`, `SpanCondition.onEvent`
* `TraceStore.fieldStrings` — the strings a condition is about
* `FindsMatches` — a condition with `=~` holds exactly when a string matches

## Main results

* `TraceStore.regex_onEvent` — a condition on an event never holds
* `findsMatches_iff` — which conditions are right
-/

namespace Aniani

open Interner TraceQL Combinator Combinators

variable {Rodeo Spur F64 : Type}

/-- The regular expression of a condition with `=~` and a string. -/
def SpanCondition.regexPattern : SpanCondition F64 → Option String
  | .attribute _ _ .regex (.string pattern) => some pattern
  | .name .regex pattern => some pattern
  | .eventName .regex pattern => some pattern
  | .eventAttribute _ .regex (.string pattern) => some pattern
  | _ => none

/-- The condition is on the events of a span. -/
def SpanCondition.onEvent : SpanCondition F64 → Bool
  | .eventName _ _ => true
  | .eventAttribute _ _ _ => true
  | _ => false

/-- The string of an attribute that has one. -/
def AttributeValue.spur? : AttributeValue Spur F64 → Option Spur
  | .string v => some v
  | _ => none

namespace TraceStore

variable [Interner Rodeo Spur]

/-- The strings that the field of a condition has: of the events one each. -/
def fieldStrings (s : TraceStore Rodeo Spur F64) (span : Span Spur F64) :
    SpanCondition F64 → List String
  | .attribute scope name _ _ =>
    ((s.findAttribute span scope name).bind fun attr => attr.2.spur?).toList.map s.resolve
  | .name _ _ => [s.resolve span.name]
  | .eventName _ _ => span.events.map fun ev => s.resolve ev.name
  | .eventAttribute name _ _ =>
    (((span.events.flatMap SpanEvent.attributes).filter fun attr => s.resolve attr.1 == name).filterMap
      fun attr => attr.2.spur?).map s.resolve
  | _ => []

variable [FloatOps F64]

/-- A regular expression on an attribute is compared with its string. -/
theorem compareAttributeValue_regex (s : TraceStore Rodeo Spur F64)
    (attr : AttributeValue Spur F64) (pattern : String) (re : Option (String → Bool)) :
    s.compareAttributeValue attr .regex (.string pattern) re =
      match attr.spur?, re with
      | some v, some re => re (s.resolve v)
      | _, _ => false := by
  cases attr with
  | string v => cases re <;> rfl
  | _ => rfl

/-- **A condition on an event never holds** with `=~`: its regular expression is not compiled. -/
theorem regex_onEvent (regexNew : String → Option (String → Bool))
    (s : TraceStore Rodeo Spur F64) (span : Span Spur F64) {condition : SpanCondition F64}
    {pattern : String} (hpattern : condition.regexPattern = some pattern)
    (hevent : condition.onEvent = true) :
    s.spanMatchesCondition span condition (precompileRegex regexNew condition) = false := by
  unfold SpanCondition.regexPattern at hpattern
  split at hpattern
  · exact absurd hevent (by simp [SpanCondition.onEvent])
  · exact absurd hevent (by simp [SpanCondition.onEvent])
  · simp [spanMatchesCondition, precompileRegex, compareString]
  · simp only [spanMatchesCondition, precompileRegex, compareAttributeValue_regex]
    simp
  · exact absurd hpattern (by simp)

/-- **Another condition holds** with `=~` exactly when the string of its field matches. -/
theorem regex_not_onEvent {regexNew : String → Option (String → Bool)}
    (s : TraceStore Rodeo Spur F64) (span : Span Spur F64) {condition : SpanCondition F64}
    {pattern : String} (hpattern : condition.regexPattern = some pattern)
    (hevent : condition.onEvent = false) {re : String → Bool} (hre : regexNew pattern = some re) :
    s.spanMatchesCondition span condition (precompileRegex regexNew condition) =
      (s.fieldStrings span condition).any re := by
  unfold SpanCondition.regexPattern at hpattern
  split at hpattern
  · next scope name pattern' =>
    obtain rfl := Option.some.inj hpattern
    rw [spanMatchesCondition, precompileRegex, hre, fieldStrings]
    cases s.findAttribute span scope name with
    | none => rfl
    | some attr =>
      rw [Option.bind_some]
      dsimp only
      rw [compareAttributeValue_regex]
      cases attr.2.spur? <;> simp
  · obtain rfl := Option.some.inj hpattern
    rw [spanMatchesCondition, precompileRegex, hre, fieldStrings]
    simp [compareString]
  · exact absurd hevent (by simp [SpanCondition.onEvent])
  · exact absurd hevent (by simp [SpanCondition.onEvent])
  · exact absurd hpattern (by simp)

end TraceStore

section Exact

variable [Interner Rodeo Spur] [FloatOps F64]

variable (Rodeo Spur) in
/-- A condition holds of a span exactly when the regular expression matches a string of its field. -/
def FindsMatches (regexNew : String → Option (String → Bool)) (condition : SpanCondition F64)
    (re : String → Bool) : Prop :=
  ∀ (s : TraceStore Rodeo Spur F64) (span : Span Spur F64),
    s.spanMatchesCondition span condition (precompileRegex regexNew condition) = true ↔
      ∃ value ∈ s.fieldStrings span condition, re value = true

/-- A span with one event, and one attribute of it. -/
def eventSpan (key value : Spur) : Span Spur F64 where
  traceId := Vector.replicate 16 1
  spanId := Vector.replicate 8 1
  parentSpanId := none
  name := value
  serviceName := value
  startTimeNs := 0
  durationNs := 0
  status := .unset
  statusMessage := none
  kind := .internal
  attributes := []
  events := [⟨value, 0, [(key, .string value)]⟩]
  links := []
  ingestSeq := 0

omit [FloatOps F64] in
variable (Rodeo Spur) in
/-- Every string may be that of an event. -/
theorem exists_fieldStrings {condition : SpanCondition F64} (hevent : condition.onEvent = true)
    (value : String) : ∃ (s : TraceStore Rodeo Spur F64) (span : Span Spur F64),
      value ∈ s.fieldStrings span condition := by
  have hspan : ∀ name : String, ∃ (s : TraceStore Rodeo Spur F64) (k v : Spur),
      s.resolve k = name ∧ s.resolve v = value := by
    intro name
    have hkey := valid_getOrIntern (empty : Rodeo) name
    have hext := extends_getOrIntern (getOrIntern (empty : Rodeo) name).2 value
    refine ⟨{ (TraceStore.new : TraceStore Rodeo Spur F64) with
      interner := (getOrIntern (getOrIntern (empty : Rodeo) name).2 value).2 },
      (getOrIntern (empty : Rodeo) name).1,
      (getOrIntern (getOrIntern (empty : Rodeo) name).2 value).1, ?_, resolve_getOrIntern_self _ _⟩
    exact (hkey.resolve_eq hext).trans (resolve_getOrIntern_self _ _)
  cases condition with
  | eventName op pattern =>
    obtain ⟨s, k, v, -, hv⟩ := hspan ""
    refine ⟨s, eventSpan k v, ?_⟩
    rw [TraceStore.fieldStrings]
    exact List.mem_singleton.mpr hv.symm
  | eventAttribute name op target =>
    obtain ⟨s, k, v, hk, hv⟩ := hspan name
    refine ⟨s, eventSpan k v, ?_⟩
    rw [TraceStore.fieldStrings]
    simp [eventSpan, hk, hv, AttributeValue.spur?]
  | _ => exact absurd hevent (by simp [SpanCondition.onEvent])

/-- **Which conditions with `=~` are right**: those that are not on an event, and with a regular
expression that matches nothing the others, too. -/
theorem findsMatches_iff {regexNew : String → Option (String → Bool)}
    {condition : SpanCondition F64} {pattern : String} {re : String → Bool}
    (hpattern : condition.regexPattern = some pattern) (hre : regexNew pattern = some re) :
    FindsMatches Rodeo Spur regexNew condition re ↔
      condition.onEvent = false ∨ ∀ value, re value = false := by
  cases hevent : condition.onEvent with
  | false =>
    refine iff_of_true (fun s span => ?_) (.inl rfl)
    rw [TraceStore.regex_not_onEvent s span hpattern hevent hre, List.any_eq_true]
  | true =>
    rw [or_iff_right (by simp)]
    constructor
    · intro h value
      obtain ⟨s, span, hmem⟩ := exists_fieldStrings Rodeo Spur hevent value
      by_contra hvalue
      have hholds := (h s span).mpr ⟨value, hmem, by simpa using hvalue⟩
      rw [TraceStore.regex_onEvent regexNew s span hpattern hevent] at hholds
      exact absurd hholds (by simp)
    · intro h s span
      rw [TraceStore.regex_onEvent regexNew s span hpattern hevent]
      simp [h]

end Exact

/-- On the name of a span, the condition is right. -/
theorem findsMatches_iff_name : FindsMatches VecRodeo ℕ (fun pattern => some fun v => v == pattern)
    (.name .regex "boom" : SpanCondition ℤ) (fun v => v == "boom") :=
  (findsMatches_iff rfl rfl).mpr (.inl rfl)

/-- A store with a span that has an event. -/
def boomStore : TraceStore VecRodeo ℕ ℤ :=
  receivedStore [{ sentSpan (List.replicate 8 1) [] with events := [⟨0, "boom", []⟩] }]

/-- **The name of an event** is not found: a query on it that the parser accepts does not match the
span with this event. -/
theorem not_findsMatches_boom :
    let _ : Combinators Char := ofLists
    let _ : Alphanumeric := .ascii
    let condition : SpanCondition ℤ := .eventName .regex "boom"
    let regexNew : String → Option (String → Bool) := fun pattern => some fun v => v == pattern
    parseTraceql (fun _ => "") "\x7bevent.name=~\"boom\"\x7d" =
        some (.ok (.spanSelector ⟨[condition], [], rfl⟩)) ∧
      ¬ ∀ span ∈ TraceStore.spansOf boomStore.traces (Vector.replicate 16 1),
        (boomStore.spanMatchesCondition span condition (precompileRegex regexNew condition) = true ↔
          ∃ value ∈ boomStore.fieldStrings span condition, (value == "boom") = true) := by
  intro _ _ condition regexNew
  refine ⟨rfl, fun hall => ?_⟩
  have hevent : ∃ span ∈ TraceStore.spansOf boomStore.traces (Vector.replicate 16 1),
      ∃ value ∈ boomStore.fieldStrings span condition, (value == "boom") = true := by decide
  obtain ⟨span, hspan, hvalue⟩ := hevent
  have hholds := (hall span hspan).mpr hvalue
  rw [TraceStore.regex_onEvent regexNew boomStore span rfl rfl] at hholds
  exact absurd hholds (by simp)

end Aniani
