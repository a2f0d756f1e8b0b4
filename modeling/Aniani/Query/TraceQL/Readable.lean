import Aniani.Ingest.Stamped
import Aniani.Query.TraceQL.Selector
import Aniani.Server.State
import Mathlib.Data.List.Find
import Mathlib.Data.List.Forall2

/-!
# What the evaluator reads off a stored span

A span that came in through `ingest_traces` names itself, its service, its attribute keys and its
string values by keys of the interner. Its service is the first attribute `service.name` of its
resource, which is also the first attribute that a condition on `resource.service.name` finds: no
attribute of a scope or of a span itself has that key, under either spelling.

## Main definitions

* `Span.Readable` — the two facts, of one span
* `TraceStore.Call` — the calls that change a trace store

## Main results

* `TraceStore.readable_exec` — every span of a store reached by calls is readable
-/

namespace Aniani

open Interner

variable {Rodeo Spur F64 : Type} [Interner Rodeo Spur]

/-! ### Interned attributes -/

/-- An attribute as it was interned: its key, and its value if that is a string. -/
def InternedAs (r : Rodeo) (p : String × PreparedAttributeValue F64)
    (a : Spur × AttributeValue Spur F64) : Prop :=
  get r p.1 = some a.1 ∧ ∀ v, a.2 = .string v → ∃ s, p.2 = .string s ∧ get r s = some v

theorem InternedAs.mono {r r' : Rodeo} {p : String × PreparedAttributeValue F64}
    {a : Spur × AttributeValue Spur F64} (h : InternedAs r p a) (hext : Extends r r') :
    InternedAs r' p a := by
  refine ⟨hext _ _ h.1, fun v hv => ?_⟩
  obtain ⟨s, hs, hget⟩ := h.2 v hv
  exact ⟨s, hs, hext _ _ hget⟩

theorem internedAs_internAttribute (r : Rodeo) (p : String × PreparedAttributeValue F64) :
    InternedAs (internAttribute r p).2 p (internAttribute r p).1 := by
  obtain ⟨key, value⟩ := p
  refine ⟨extends_internValue _ _ _ _ (get_getOrIntern_self r key), fun v hv => ?_⟩
  cases value with
  | string s =>
    obtain rfl := AttributeValue.string.inj hv
    exact ⟨s, rfl, get_getOrIntern_self _ s⟩
  | _ => exact absurd hv (by simp [internAttribute, internValue])

theorem forall₂_internAttributes (r : Rodeo) (attrs : PreparedAttrs F64) :
    List.Forall₂ (InternedAs (internEach internAttribute r attrs).2) attrs
      (internEach internAttribute r attrs).1 :=
  forall₂_internEach extends_internAttribute internedAs_internAttribute InternedAs.mono r attrs

/-- What is found among the interned attributes was found among the prepared ones. -/
theorem find?_of_forall₂ {α β : Type} {R : α → β → Prop} {p : α → Bool} {q : β → Bool}
    {l : List α} {l' : List β} (h : List.Forall₂ R l l') (hpq : ∀ a b, R a b → p a = q b) {b : β}
    (hb : l'.find? q = some b) : ∃ a, l.find? p = some a ∧ R a b := by
  induction h with
  | nil => exact absurd hb (by simp)
  | cons hab _ ih =>
    rw [List.find?_cons] at hb ⊢
    rw [hpq _ _ hab]
    split at hb
    · obtain rfl := Option.some.inj hb
      exact ⟨_, rfl, hab⟩
    · exact ih hb

theorem exists_of_mem_forall₂ {α β : Type} {R : α → β → Prop} {l : List α} {l' : List β}
    (h : List.Forall₂ R l l') {b : β} (hb : b ∈ l') : ∃ a, R a b := by
  induction h with
  | nil => exact absurd hb List.not_mem_nil
  | cons hab _ ih =>
    rcases List.mem_cons.mp hb with rfl | hb
    · exact ⟨_, hab⟩
    · exact ih hb

/-! ### Readable spans -/

/-- The keys a condition on the service of a resource looks at. -/
def serviceKeys : List String := TraceStore.candidateKeys .resource "service.name"

/-- The first of the attributes under a service key, if it is a string, is the service. -/
def ServiceRule (attrs : PreparedAttrs F64) (serviceName : String) : Prop :=
  ∀ key value, (attrs.find? fun attr => decide (attr.1 ∈ serviceKeys)) = some (key, .string value) →
    value = serviceName

/-- A span the evaluator can read: its keys are keys of the interner, and its service is what a
condition on the service finds. -/
structure Span.Readable (r : Rodeo) (span : Span Spur F64) : Prop where
  name : Valid r span.name
  key : ∀ a ∈ span.attributes, Valid r a.1
  value : ∀ a ∈ span.attributes, ∀ v, a.2 = .string v → Valid r v
  service : ∀ k v, (span.attributes.find? fun a => decide (resolve r a.1 ∈ serviceKeys)) =
    some (k, .string v) → v = span.serviceName

theorem Span.Readable.mono {r r' : Rodeo} {span : Span Spur F64} (h : span.Readable r)
    (hext : Extends r r') : span.Readable r' where
  name := h.name.mono hext
  key a ha := (h.key a ha).mono hext
  value a ha v hv := (h.value a ha v hv).mono hext
  service k v hfind := by
    refine h.service k v (hfind ▸ List.find?_congr fun a ha => ?_)
    rw [(h.key a ha).resolve_eq hext]

/-- **An interned span is readable**, if its service follows the rule. -/
theorem readable_internPreparedSpan {r : Rodeo} {p : PreparedSpan F64} {attrs : PreparedAttrs F64}
    {shared : Attributes Spur F64} (hshared : List.Forall₂ (InternedAs r) attrs shared)
    (hrule : ServiceRule (attrs ++ p.attributes) p.serviceName) :
    (internPreparedSpan shared r p).1.Readable (internPreparedSpan shared r p).2 := by
  have hservice := extends_internPreparedSpan_service shared r p
  have hown : List.Forall₂ (InternedAs (internPreparedSpan shared r p).2) (attrs ++ p.attributes)
      (internPreparedSpan shared r p).1.attributes := by
    refine List.rel_append (hshared.imp fun _ _ h => h.mono (extends_internPreparedSpan shared r p))
      ((forall₂_internAttributes _ p.attributes).imp fun _ _ h => h.mono ?_)
    exact ((extends_internEach extends_internEvent _ _).trans
      (extends_internEach extends_internLink _ _)).trans (extends_internOption _ _)
  have hname : get (internPreparedSpan shared r p).2 p.serviceName =
      some (internPreparedSpan shared r p).1.serviceName :=
    hservice _ _ (get_getOrIntern_self _ _)
  constructor
  · exact ((valid_getOrIntern r p.name).mono (extends_getOrIntern _ _)).mono hservice
  · intro a ha
    obtain ⟨q, hq⟩ := exists_of_mem_forall₂ hown ha
    exact ⟨q.1, hq.1⟩
  · intro a ha v hv
    obtain ⟨q, hq⟩ := exists_of_mem_forall₂ hown ha
    obtain ⟨s, -, hs⟩ := hq.2 v hv
    exact ⟨s, hs⟩
  · intro k v hfind
    obtain ⟨⟨key, value⟩, hq, hqa⟩ := find?_of_forall₂ hown
      (p := fun attr : String × PreparedAttributeValue F64 => decide (attr.1 ∈ serviceKeys))
      (fun q a hqa => by rw [resolve_of_get hqa.1]) hfind
    obtain ⟨s, rfl, hs⟩ := hqa.2 v rfl
    rw [hrule key s hq, hname] at hs
    exact (Option.some.inj hs).symm

/-! ### The rule -/

/-- No key of the attributes is a service key. -/
def NoServiceKey (attrs : PreparedAttrs F64) : Prop := ∀ attr ∈ attrs, attr.1 ∉ serviceKeys

omit [Interner Rodeo Spur] in
theorem NoServiceKey.append {attrs attrs' : PreparedAttrs F64} (h : NoServiceKey attrs)
    (h' : NoServiceKey attrs') : NoServiceKey (attrs ++ attrs') := fun attr hattr =>
  (List.mem_append.mp hattr).elim (h attr) (h' attr)

/-- A string with another beginning is no service key. -/
theorem append_notMem_serviceKeys {before : String}
    (hbefore : ∀ key ∈ serviceKeys, ¬ before.toList <+: key.toList) (rest : String) :
    before ++ rest ∉ serviceKeys := fun hmem =>
  hbefore _ hmem (by rw [String.toList_append]; exact List.prefix_append _ _)

theorem noServiceKey_prepareAttrs (before : String)
    (hbefore : ∀ key ∈ serviceKeys, ¬ before.toList <+: key.toList)
    (attrs : List (KeyValue F64)) : NoServiceKey (prepareAttrs before attrs) := by
  intro attr hattr
  obtain ⟨kv, -, heq⟩ := List.mem_filterMap.mp hattr
  obtain ⟨value, -, rfl⟩ := Option.map_eq_some_iff.mp heq
  exact append_notMem_serviceKeys hbefore kv.key

theorem noServiceKey_prepareScopeAttrs (scope : Option (InstrumentationScope F64)) :
    NoServiceKey (prepareScopeAttrs scope) := by
  cases scope with
  | none => exact fun attr hattr => absurd hattr List.not_mem_nil
  | some scope =>
    have hone : ∀ (b : Bool) (key : String) (value : PreparedAttributeValue F64),
        key ∉ serviceKeys → NoServiceKey (if b then [] else [(key, value)]) := by
      intro b key value hkey attr hattr
      cases b
      · obtain rfl := List.mem_singleton.mp hattr
        exact hkey
      · exact absurd hattr List.not_mem_nil
    refine NoServiceKey.append (NoServiceKey.append ?_ ?_)
      (noServiceKey_prepareAttrs "scope." (by decide) _)
    · simpa using hone (scope.name = "") "scope.name" (.string scope.name) (by decide)
    · simpa using hone (scope.version = "") "scope.version" (.string scope.version) (by decide)

/-- A resource attribute is under a service key exactly when it is `service.name`. -/
theorem resource_append_mem_serviceKeys (key : String) :
    "resource." ++ key ∈ serviceKeys ↔ key = "service.name" := by
  refine ⟨fun hmem => ?_, fun hkey => hkey ▸ List.mem_cons_self⟩
  rcases List.mem_cons.mp hmem with heq | hmem
  · exact (String.append_right_inj "resource.").mp heq
  · obtain heq := List.mem_singleton.mp hmem
    have hprefix : "resource.".toList <+: "service.name".toList := by
      rw [← heq, String.toList_append]
      exact List.prefix_append _ _
    exact absurd hprefix (by decide)

/-- **The rule holds** of what a resource and its scopes give to a span. -/
theorem serviceRule_prepared [Float64 F64] (resource : Option (Resource F64))
    (scope : Option (InstrumentationScope F64)) (attrs : List (KeyValue F64)) :
    ServiceRule (prepareResourceAttrs resource ++ prepareScopeAttrs scope ++
      prepareAttrs "span." attrs) (resourceService resource) := by
  intro key value hfind
  have hrest := (noServiceKey_prepareScopeAttrs scope).append
    (noServiceKey_prepareAttrs "span." (by decide) attrs)
  have hnone : (prepareScopeAttrs scope ++ prepareAttrs "span." attrs).find?
      (fun attr => decide (attr.1 ∈ serviceKeys)) = none :=
    List.find?_eq_none.mpr fun attr hattr => by simpa using hrest attr hattr
  rw [List.append_assoc, List.find?_append, hnone, Option.or_none, prepareResourceAttrs,
    List.find?_map, Option.map_eq_some_iff] at hfind
  obtain ⟨⟨k, v⟩, hfind, heq⟩ := hfind
  obtain ⟨rfl, rfl⟩ : "resource." ++ k = key ∧ v = value := by simpa using heq
  have hsame : (extractResourceLabels resource).find? (fun label => label.1 == "service.name") =
      some (k, v) := by
    rw [← hfind]
    refine List.find?_congr fun label _ => ?_
    rw [beq_eq_decide]
    exact decide_eq_decide.mpr (resource_append_mem_serviceKeys label.1).symm
  rw [resourceService, hsame]
  rfl

/-- The spans of a list of resources follow the rule. -/
def Ruled (resources : List (PreparedResource F64)) : Prop :=
  ∀ resource ∈ resources, ∀ group ∈ resource.2, ∀ p ∈ group.2,
    ServiceRule (resource.1 ++ group.1 ++ p.attributes) p.serviceName

theorem serviceRule_scopeGroups [Float64 F64] (resource : Option (Resource F64)) {seqs : ℕ → ℕ}
    {n : ℕ} {scopes : List (ScopeSpans F64)} :
    ∀ group ∈ scopeGroups seqs (resourceService resource) n scopes, ∀ p ∈ group.2,
      ServiceRule (prepareResourceAttrs resource ++ group.1 ++ p.attributes) p.serviceName := by
  induction scopes generalizing n with
  | nil => exact fun group hgroup => absurd hgroup List.not_mem_nil
  | cons scope scopes ih =>
    intro group hgroup p hp
    rcases List.mem_cons.mp hgroup with rfl | hgroup
    · obtain ⟨i, hi, rfl⟩ := List.mem_mapIdx.mp hp
      exact serviceRule_prepared resource scope.scope _
    · exact ih group hgroup p hp

theorem ruled_preparedResources [Float64 F64] {seqs : ℕ → ℕ} {n : ℕ}
    {request : ExportTraceServiceRequest F64} : Ruled (preparedResources seqs n request) := by
  induction request generalizing n with
  | nil => exact fun resource hresource => absurd hresource List.not_mem_nil
  | cons resourceSpans request ih =>
    refine List.forall_mem_cons.mpr ⟨?_, ih⟩
    exact serviceRule_scopeGroups resourceSpans.resource

/-! ### Ingest -/

namespace TraceStore

variable [LinearOrder Spur]

/-- Every span of the store is readable. -/
def AllReadable (s : TraceStore Rodeo Spur F64) : Prop :=
  ∀ span, s.Holds span → span.Readable s.interner

omit [LinearOrder Spur] in
theorem AllReadable.of_shrinks {s s' : TraceStore Rodeo Spur F64} (h : s.AllReadable)
    (hs : s.Shrinks s') (hinterner : s'.interner = s.interner) : s'.AllReadable :=
  fun span hspan => hinterner ▸ h span (hs.holds hspan)

omit [LinearOrder Spur] in
theorem AllReadable.withInterner {s : TraceStore Rodeo Spur F64} (h : s.AllReadable) {r : Rodeo}
    (hext : Extends s.interner r) : AllReadable { s with interner := r } :=
  fun span hspan => (h span (hspan.congr rfl)).mono hext

theorem extends_ingestScope (resource : Attributes Spur F64) (s : TraceStore Rodeo Spur F64)
    (group : PreparedScopeGroup F64) :
    Extends s.interner (s.ingestScope resource group).interner := by
  rw [ingestScope, ingestSpans_interner]
  exact (extends_internEach extends_internAttribute _ _).trans
    (extends_internEach (extends_internPreparedSpan _) _ _)

/-- **Ingesting a scope keeps every span readable.** -/
theorem AllReadable.ingestScope {s : TraceStore Rodeo Spur F64} (h : s.AllReadable)
    {attrs : PreparedAttrs F64} {resource : Attributes Spur F64}
    (hresource : List.Forall₂ (InternedAs s.interner) attrs resource)
    {group : PreparedScopeGroup F64}
    (hrule : ∀ p ∈ group.2, ServiceRule (attrs ++ group.1 ++ p.attributes) p.serviceName) :
    (s.ingestScope resource group).AllReadable := by
  intro span hspan
  rcases holds_ingestSpans hspan with hold | hmem
  · exact (h span (hold.congr rfl)).mono (extends_ingestScope resource s group)
  · have hscope := extends_internEach extends_internAttribute s.interner group.1
    obtain ⟨p, hp, r, hr, rfl, hext⟩ :=
      mem_internEach (extends_internPreparedSpan (resource ++ _)) hmem
    have hshared := List.rel_append
      (hresource.imp fun _ _ h => (h.mono hscope).mono hr)
      ((forall₂_internAttributes s.interner group.1).imp fun _ _ h => h.mono hr)
    rw [TraceStore.ingestScope, ingestSpans_interner]
    exact (readable_internPreparedSpan hshared (hrule p hp)).mono hext

theorem AllReadable.ingestResource {s : TraceStore Rodeo Spur F64} (h : s.AllReadable)
    {resource : PreparedResource F64}
    (hrule : ∀ group ∈ resource.2, ∀ p ∈ group.2,
      ServiceRule (resource.1 ++ group.1 ++ p.attributes) p.serviceName) :
    (s.ingestResource resource).AllReadable := by
  obtain ⟨attrs, groups⟩ := resource
  have hattrs := forall₂_internAttributes s.interner attrs
  have hstart := h.withInterner (extends_internEach extends_internAttribute s.interner attrs)
  rw [TraceStore.ingestResource]
  dsimp only at hrule ⊢
  generalize internEach internAttribute s.interner attrs = interned at hattrs hstart ⊢
  -- the attributes of the resource stay interned from scope to scope
  have hscopes : ∀ (groups : List (PreparedScopeGroup F64)) (s : TraceStore Rodeo Spur F64),
      s.AllReadable → List.Forall₂ (InternedAs s.interner) attrs interned.1 →
        (∀ group ∈ groups, ∀ p ∈ group.2,
          ServiceRule (attrs ++ group.1 ++ p.attributes) p.serviceName) →
        (groups.foldl (TraceStore.ingestScope interned.1) s).AllReadable := by
    intro groups
    induction groups with
    | nil => exact fun s hs _ _ => hs
    | cons group groups ih =>
      intro s hs hinterned hrule
      refine ih _ (hs.ingestScope hinterned (hrule group List.mem_cons_self)) ?_
        fun group' hgroup' => hrule group' (List.mem_cons_of_mem _ hgroup')
      exact hinterned.imp fun _ _ h => h.mono (extends_ingestScope _ s group)
  exact hscopes groups _ hstart hattrs hrule

/-- **A traces request leaves every span readable.** -/
theorem AllReadable.ingestTraces [Float64 F64] {s : TraceStore Rodeo Spur F64} (h : s.AllReadable)
    (seqs : ℕ → ℕ) (request : ExportTraceServiceRequest F64) :
    (s.ingestTraces seqs request).AllReadable := by
  have hresources : ∀ (resources : List (PreparedResource F64)) (s : TraceStore Rodeo Spur F64),
      s.AllReadable → Ruled resources → (resources.foldl TraceStore.ingestResource s).AllReadable := by
    intro resources
    induction resources with
    | nil => exact fun s hs _ => hs
    | cons resource resources ih =>
      intro s hs hruled
      exact ih _ (hs.ingestResource (hruled resource List.mem_cons_self))
        fun resource' hresource' => hruled resource' (List.mem_cons_of_mem _ hresource')
  exact hresources _ s h ruled_preparedResources

end TraceStore

/-! ### Runs -/

/-- The calls that change a trace store: the ingest of a request with its numbers, and the
removals. -/
inductive TraceStore.Call (F64 : Type) where
  | ingestTraces (seqs : ℕ → ℕ) (request : ExportTraceServiceRequest F64)
  | remove (it : IterOrder TraceId) (r : Removal)

namespace TraceStore

variable [LinearOrder Spur] [Float64 F64]

/-- One call. -/
def call (s : TraceStore Rodeo Spur F64) : Call F64 → TraceStore Rodeo Spur F64
  | .ingestTraces seqs request => s.ingestTraces seqs request
  | .remove it r => s.apply (r.traceOp it)

omit [Float64 F64] in
/-- A removal leaves every span readable. -/
theorem AllReadable.remove {s : TraceStore Rodeo Spur F64} (h : s.AllReadable)
    (it : IterOrder TraceId) (r : Removal) : (s.apply (r.traceOp it)).AllReadable := by
  cases r with
  | evictBefore cutoff =>
    exact h.of_shrinks (shrinks_evictBefore it s cutoff) (interner_evictBefore it s cutoff)
  | evictToMax max =>
    exact h.of_shrinks (shrinks_evictToMax it s max) (interner_evictToMax it s max)
  | clear => exact fun _ hspan => absurd hspan (not_holds_new _)
  | clearService service =>
    exact h.of_shrinks (shrinks_clearService it s service) (interner_clearService it s service)

/-- **Every reachable store** has its indexes right and its spans readable. -/
theorem readable_exec (calls : List (Call F64)) :
    (Run.exec call (new : TraceStore Rodeo Spur F64) calls).Invariant ∧
      (Run.exec call (new : TraceStore Rodeo Spur F64) calls).AllReadable := by
  refine Run.exec_invariant (P := fun s : TraceStore Rodeo Spur F64 => s.Invariant ∧ s.AllReadable)
    (fun s c hs => ?_) ⟨invariant_new, fun _ hspan => absurd hspan (not_holds_new _)⟩ calls
  cases c with
  | ingestTraces seqs request =>
    exact ⟨(gains_ingestTraces s seqs request).invariant hs.1, hs.2.ingestTraces seqs request⟩
  | remove it r => exact ⟨hs.1.apply _, hs.2.remove it r⟩

end TraceStore

/-! ### To evaluate with -/

/-- A span to be sent, with an id and the id of its parent. -/
def sentSpan (spanId parentSpanId : List UInt8) : OtlpSpan ℤ where
  traceId := List.replicate 16 1
  spanId := spanId
  parentSpanId := parentSpanId
  name := ""
  kind := 0
  startTimeUnixNano := 0
  endTimeUnixNano := 0
  attributes := []
  events := []
  links := []
  status := none

/-- The store that has received some spans. -/
def receivedStore (spans : List (OtlpSpan ℤ)) : TraceStore VecRodeo ℕ ℤ :=
  Run.exec TraceStore.call TraceStore.new [.ingestTraces id [⟨none, [⟨none, spans⟩]⟩]]

end Aniani
