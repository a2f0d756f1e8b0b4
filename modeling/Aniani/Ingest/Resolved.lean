import Aniani.Ingest.Stamped

/-!
# Interning, undone

What is stored has keys of the interner where the request had strings. A key is read as its string
from then on, whatever is interned later, so a stored entry or span can be read back as it was
prepared, at the moment it is committed and ever after.

## Main definitions

* `Settled` — what is read does not change while strings are interned
* `AttributeValue.resolved`, `LogEntry.resolved`, `Span.resolved` — stored values, read back
* `LogLine` — a log entry without keys

## Main results

* `settled_internEach` — a list, when its elements are
* `settled_internValue`, `settled_internLogEntry`, `settled_internPreparedSpan`
-/

namespace Aniani

open Interner

/-! ### Reading what was interned -/

section Settled

variable {Rodeo Spur α β γ : Type} [Interner Rodeo Spur]

/-- In `r`, and whatever is interned after that, `f` reads `b`. -/
def Settled (r : Rodeo) (f : Rodeo → β) (b : β) : Prop := ∀ r', Extends r r' → f r' = b

theorem Settled.eq {r : Rodeo} {f : Rodeo → β} {b : β} (h : Settled r f b) : f r = b :=
  h r (Extends.refl r)

theorem Settled.mono {r r' : Rodeo} {f : Rodeo → β} {b : β} (h : Settled r f b)
    (hext : Extends r r') : Settled r' f b := fun _ hext' => h _ (hext.trans hext')

theorem settled_const (r : Rodeo) (b : β) : Settled r (fun _ => b) b := fun _ _ => rfl

theorem Settled.map {r : Rodeo} {f : Rodeo → β} {b : β} (h : Settled r f b) (g : β → γ) :
    Settled r (fun r' => g (f r')) (g b) := fun r' hext => congrArg g (h r' hext)

theorem Settled.map₂ {δ : Type} {r : Rodeo} {f : Rodeo → β} {f' : Rodeo → γ} {b : β} {c : γ}
    (h : Settled r f b) (h' : Settled r f' c) (g : β → γ → δ) :
    Settled r (fun r' => g (f r') (f' r')) (g b c) :=
  fun r' hext => congrArg₂ g (h r' hext) (h' r' hext)

/-- **A key is read as the string it was given for.** -/
theorem settled_getOrIntern (r : Rodeo) (s : String) :
    Settled (getOrIntern r s).2 (fun r' => resolve r' (getOrIntern r s).1) s :=
  fun _ hext => resolve_of_get (hext _ _ (get_getOrIntern_self r s))

theorem settled_internOption (r : Rodeo) (s : Option String) :
    Settled (internOption r s).2 (fun r' => (internOption r s).1.map (resolve r')) s := by
  cases s with
  | none => exact settled_const r none
  | some s => exact (settled_getOrIntern r s).map some

/-- **A list is read as it was**, when its elements are from here on. -/
theorem settled_internEach_of_extends {f : Rodeo → α → β × Rodeo} {g : Rodeo → β → γ} {h : α → γ}
    (hext : ∀ r a, Extends r (f r a).2) {r : Rodeo}
    (hf : ∀ r' a, Extends r r' → Settled (f r' a).2 (fun r'' => g r'' (f r' a).1) (h a))
    (l : List α) :
    Settled (internEach f r l).2 (fun r' => (internEach f r l).1.map (g r')) (l.map h) := by
  induction l generalizing r with
  | nil => exact settled_const r []
  | cons a l ih =>
    have hlater := ih fun r' a' hr' => hf r' a' ((hext r a).trans hr')
    exact ((hf r a (Extends.refl r)).mono (extends_internEach hext _ l)).map₂ hlater List.cons

theorem settled_internEach {f : Rodeo → α → β × Rodeo} {g : Rodeo → β → γ} {h : α → γ}
    (hext : ∀ r a, Extends r (f r a).2)
    (hf : ∀ r a, Settled (f r a).2 (fun r' => g r' (f r a).1) (h a)) (r : Rodeo) (l : List α) :
    Settled (internEach f r l).2 (fun r' => (internEach f r l).1.map (g r')) (l.map h) :=
  settled_internEach_of_extends hext (fun r a _ => hf r a) l

end Settled

/-! ### Attributes -/

section Attributes

variable {Rodeo Spur F64 : Type} [Interner Rodeo Spur]

mutual

/-- A value with the strings of its keys. -/
def AttributeValue.resolved (r : Rodeo) : AttributeValue Spur F64 → PreparedAttributeValue F64
  | .string s => .string (Interner.resolve r s)
  | .int i => .int i
  | .float f => .float f
  | .bool b => .bool b
  | .bytes b => .bytes b
  | .array items => .array (resolvedValues r items)
  | .keyValueList pairs => .keyValueList (resolvedPairs r pairs)

/-- The elements of an array. -/
def resolvedValues (r : Rodeo) :
    List (AttributeValue Spur F64) → List (PreparedAttributeValue F64)
  | [] => []
  | item :: items => item.resolved r :: resolvedValues r items

/-- The entries of a key-value list, or the attributes of what is stored. -/
def resolvedPairs (r : Rodeo) : Attributes Spur F64 → PreparedAttrs F64
  | [] => []
  | (key, value) :: pairs => (Interner.resolve r key, value.resolved r) :: resolvedPairs r pairs

end

theorem resolvedPairs_append (r : Rodeo) (pairs pairs' : Attributes Spur F64) :
    resolvedPairs r (pairs ++ pairs') = resolvedPairs r pairs ++ resolvedPairs r pairs' := by
  induction pairs with
  | nil => rfl
  | cons pair pairs ih =>
    obtain ⟨key, value⟩ := pair
    exact congrArg (List.cons _) ih

/-- One attribute. -/
def resolvedAttr (r : Rodeo) (attr : Spur × AttributeValue Spur F64) :
    String × PreparedAttributeValue F64 := (Interner.resolve r attr.1, attr.2.resolved r)

theorem resolvedPairs_eq_map (r : Rodeo) (pairs : Attributes Spur F64) :
    resolvedPairs r pairs = pairs.map (resolvedAttr r) := by
  induction pairs with
  | nil => rfl
  | cons pair pairs ih =>
    obtain ⟨key, value⟩ := pair
    exact congrArg (List.cons _) ih

mutual

theorem settled_internValue (r : Rodeo) : (value : PreparedAttributeValue F64) →
    Settled (internValue r value).2 (fun r' => (internValue r value).1.resolved r') value
  | .string s => fun r' hext =>
    congrArg PreparedAttributeValue.string (settled_getOrIntern r s r' hext)
  | .int _ => fun _ _ => rfl
  | .float _ => fun _ _ => rfl
  | .bool _ => fun _ _ => rfl
  | .bytes _ => fun _ _ => rfl
  | .array items => fun r' hext =>
    congrArg PreparedAttributeValue.array (settled_internValues r items r' hext)
  | .keyValueList pairs => fun r' hext =>
    congrArg PreparedAttributeValue.keyValueList (settled_internPairValues r pairs r' hext)

theorem settled_internValues (r : Rodeo) : (items : List (PreparedAttributeValue F64)) →
    Settled (internValues r items).2 (fun r' => resolvedValues r' (internValues r items).1) items
  | [] => fun _ _ => rfl
  | item :: items => fun r' hext =>
    congrArg₂ List.cons
      (settled_internValue r item r' ((extends_internValues _ items).trans hext))
      (settled_internValues _ items r' hext)

theorem settled_internPairValues (r : Rodeo) : (pairs : PreparedAttrs F64) →
    Settled (internPairValues r pairs).2 (fun r' => resolvedPairs r' (internPairValues r pairs).1)
      pairs
  | [] => fun _ _ => rfl
  | (key, value) :: pairs => fun r' hext =>
    have hrest := (extends_internPairValues _ pairs).trans hext
    congrArg₂ List.cons
      (congrArg₂ Prod.mk (settled_getOrIntern r key r' ((extends_internValue _ value).trans hrest))
        (settled_internValue _ value r' hrest))
      (settled_internPairValues _ pairs r' hext)

end

/-- **Attributes** are read as they were prepared. -/
theorem settled_internAttributes (r : Rodeo) (attrs : PreparedAttrs F64) :
    Settled (internEach internAttribute r attrs).2
      (fun r' => resolvedPairs r' (internEach internAttribute r attrs).1) attrs := by
  intro r' hext
  have hattr : ∀ (r : Rodeo) (attr : String × PreparedAttributeValue F64),
      Settled (internAttribute r attr).2 (fun r' => resolvedAttr r' (internAttribute r attr).1)
        attr := fun r attr =>
    ((settled_getOrIntern r attr.1).mono (extends_internValue _ attr.2)).map₂
      (settled_internValue _ attr.2) Prod.mk
  have heach := settled_internEach extends_internAttribute hattr r attrs r' hext
  rw [List.map_id'] at heach
  exact (resolvedPairs_eq_map _ _).trans heach

end Attributes

/-! ### Log entries -/

section Logs

/-- A log entry without keys. -/
structure LogLine (F64 : Type) where
  timestampNs : ℤ
  line : String
  ingestSeq : ℕ
  traceId : Option TraceId
  spanId : Option SpanId
  severityNumber : ℤ
  severityText : Option String
  attributes : PreparedAttrs F64

variable {Rodeo Spur F64 : Type} [Interner Rodeo Spur]

/-- An attribute of a log entry among the attribute values. -/
def PreparedLogAttr.value : PreparedLogAttr F64 → PreparedAttributeValue F64
  | .string s => .string s
  | .int i => .int i
  | .float f => .float f
  | .bool b => .bool b

/-- What a prepared entry says. -/
def PreparedLogEntry.logLine (e : PreparedLogEntry F64) : LogLine F64 where
  timestampNs := e.timestampNs
  line := e.line
  ingestSeq := e.ingestSeq
  traceId := e.traceId
  spanId := e.spanId
  severityNumber := e.severityNumber
  severityText := e.severityText
  attributes := e.attributes.map fun attr => (attr.1, attr.2.value)

/-- What a stored entry says. -/
def LogEntry.resolved (r : Rodeo) (e : LogEntry Spur F64) : LogLine F64 where
  timestampNs := e.timestampNs
  line := e.line
  ingestSeq := e.ingestSeq
  traceId := e.traceId
  spanId := e.spanId
  severityNumber := e.severityNumber
  severityText := e.severityText.map (Interner.resolve r)
  attributes := resolvedPairs r e.attributes

theorem settled_internLogAttr (r : Rodeo) (attr : String × PreparedLogAttr F64) :
    Settled (internLogAttr r attr).2 (fun r' => resolvedAttr r' (internLogAttr r attr).1)
      (attr.1, attr.2.value) := by
  obtain ⟨key, value⟩ := attr
  cases value with
  | string s =>
    exact ((settled_getOrIntern r key).mono (extends_getOrIntern _ s)).map₂
      (settled_getOrIntern _ s) fun key s => (key, PreparedAttributeValue.string s)
  | int i =>
    exact (settled_getOrIntern r key).map fun key => (key, PreparedAttributeValue.int i)
  | float f =>
    exact (settled_getOrIntern r key).map fun key => (key, PreparedAttributeValue.float f)
  | bool b =>
    exact (settled_getOrIntern r key).map fun key => (key, PreparedAttributeValue.bool b)

/-- **A log entry** is read as it was prepared. -/
theorem settled_internLogEntry (r : Rodeo) (e : PreparedLogEntry F64) :
    Settled (internLogEntry r e).2 (fun r' => (internLogEntry r e).1.resolved r') e.logLine := by
  intro r' hext
  have hattrs := settled_internEach LogStore.extends_internLogAttr settled_internLogAttr r
    e.attributes r' ((extends_internOption _ e.severityText).trans hext)
  have htext := settled_internOption (internEach internLogAttr r e.attributes).2 e.severityText
    r' hext
  show LogEntry.resolved r' _ = _
  rw [LogEntry.resolved, PreparedLogEntry.logLine, LogLine.mk.injEq]
  exact ⟨rfl, rfl, rfl, rfl, rfl, rfl, htext, (resolvedPairs_eq_map r' _).trans hattrs⟩

end Logs

/-! ### Spans -/

section Spans

variable {Rodeo Spur F64 : Type} [Interner Rodeo Spur]

/-- What a stored event says. -/
def SpanEvent.resolved (r : Rodeo) (event : SpanEvent Spur F64) : PreparedEvent F64 where
  name := Interner.resolve r event.name
  timeNs := event.timeNs
  attributes := resolvedPairs r event.attributes

/-- What a stored link says. -/
def SpanLink.resolved (r : Rodeo) (link : SpanLink Spur F64) : PreparedLink F64 where
  traceId := link.traceId
  spanId := link.spanId
  traceState := link.traceState.map (Interner.resolve r)
  attributes := resolvedPairs r link.attributes
  flags := link.flags

/-- What a stored span says. -/
def Span.resolved (r : Rodeo) (span : Span Spur F64) : PreparedSpan F64 where
  traceId := span.traceId
  spanId := span.spanId
  parentSpanId := span.parentSpanId
  name := Interner.resolve r span.name
  serviceName := Interner.resolve r span.serviceName
  startTimeNs := span.startTimeNs
  durationNs := span.durationNs
  status := span.status
  statusMessage := span.statusMessage.map (Interner.resolve r)
  kind := span.kind
  attributes := resolvedPairs r span.attributes
  events := span.events.map (SpanEvent.resolved r)
  links := span.links.map (SpanLink.resolved r)
  ingestSeq := span.ingestSeq

/-- A prepared span with the attributes of its resource and its scope in front of its own. -/
def PreparedSpan.under (shared : PreparedAttrs F64) (p : PreparedSpan F64) : PreparedSpan F64 :=
  { p with attributes := shared ++ p.attributes }

theorem settled_internEvent (r : Rodeo) (event : PreparedEvent F64) :
    Settled (internEvent r event).2 (fun r' => (internEvent r event).1.resolved r') event := by
  intro r' hext
  have hname := settled_getOrIntern r event.name r'
    ((extends_internEach extends_internAttribute _ event.attributes).trans hext)
  have hattrs := settled_internAttributes (getOrIntern r event.name).2 event.attributes r' hext
  cases event
  show SpanEvent.resolved r' _ = _
  rw [SpanEvent.resolved, PreparedEvent.mk.injEq]
  exact ⟨hname, rfl, hattrs⟩

theorem settled_internLink (r : Rodeo) (link : PreparedLink F64) :
    Settled (internLink r link).2 (fun r' => (internLink r link).1.resolved r') link := by
  intro r' hext
  have hstate := settled_internOption r link.traceState r'
    ((extends_internEach extends_internAttribute _ link.attributes).trans hext)
  have hattrs := settled_internAttributes (internOption r link.traceState).2 link.attributes r' hext
  cases link
  show SpanLink.resolved r' _ = _
  rw [SpanLink.resolved, PreparedLink.mk.injEq]
  exact ⟨rfl, rfl, hstate, hattrs, rfl⟩

/-- **A span** is read as it was prepared, with the attributes it shares with others. -/
theorem settled_internPreparedSpan {r : Rodeo} {shared : Attributes Spur F64}
    {attrs : PreparedAttrs F64} (hshared : Settled r (fun r' => resolvedPairs r' shared) attrs)
    (p : PreparedSpan F64) :
    Settled (internPreparedSpan shared r p).2
      (fun r' => (internPreparedSpan shared r p).1.resolved r') (p.under attrs) := by
  intro r' hext
  have hmessage := (extends_internOption (internEach internLink (internEach internEvent (internEach
    internAttribute (getOrIntern (getOrIntern r p.name).2 p.serviceName).2 p.attributes).2
      p.events).2 p.links).2 p.statusMessage).trans hext
  have hlinks := (extends_internEach extends_internLink _ p.links).trans hmessage
  have hevents := (extends_internEach extends_internEvent _ p.events).trans hlinks
  have hattrs := (extends_internEach extends_internAttribute _ p.attributes).trans hevents
  have hservice := (extends_getOrIntern _ p.serviceName).trans hattrs
  have hname := (extends_getOrIntern r p.name).trans hservice
  show Span.resolved r' _ = _
  rw [Span.resolved, PreparedSpan.under, PreparedSpan.mk.injEq]
  refine ⟨rfl, rfl, rfl, settled_getOrIntern r p.name r' hservice,
    settled_getOrIntern _ p.serviceName r' hattrs, rfl, rfl, rfl,
    settled_internOption _ p.statusMessage r' hext, rfl, ?_, ?_, ?_, rfl⟩
  · show resolvedPairs r' (shared ++ _) = _
    rw [resolvedPairs_append]
    exact congrArg₂ (· ++ ·) (hshared r' hname) (settled_internAttributes _ p.attributes r' hevents)
  · have heach := settled_internEach extends_internEvent settled_internEvent _ p.events r' hlinks
    rwa [List.map_id'] at heach
  · have heach := settled_internEach extends_internLink settled_internLink _ p.links r' hmessage
    rwa [List.map_id'] at heach

end Spans

end Aniani
