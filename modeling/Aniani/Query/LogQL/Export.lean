import Aniani.Ingest.LokiJson
import Aniani.Query.LogQL.Answers

/-!
# The reply to a stream query

The reply to a stream query has the form of a push: streams with their labels, and values with a
time, a line and metadata. So the lines of one server can be pushed into another.

What comes back is what was written, entry by entry, except in three cases. A time is read as one of
the unit that its size tells, so one that is not in the range of nanoseconds is another time after.
An attribute with the key of an id is taken for the id. And where a key comes up twice, among the
labels or the attributes, the map keeps the last.

## Main definitions

* `formatStreams` — `format_logql_result`, of streams
* `Portable`, `StreamResult.Portable` — none of the three is the case
* `Restores`, `RestoresStream` — what was read is what was written

## Main results

* `restores_iff` — **when a reply can be pushed**
-/

namespace Aniani

namespace LogQL

variable {F64 : Type}

/-! ### Maps -/

/-- Of the pairs with one key, the last. -/
def lastOfEach {β : Type} : List (String × β) → List (String × β)
  | [] => []
  | kv :: pairs =>
    if kv.1 ∈ pairs.map Prod.fst then lastOfEach pairs else kv :: lastOfEach pairs

section LastOfEach

variable {β γ : Type}

theorem lastOfEach_sublist (pairs : List (String × β)) : (lastOfEach pairs).Sublist pairs := by
  induction pairs with
  | nil => exact List.Sublist.refl _
  | cons kv pairs ih =>
    rw [lastOfEach]
    split_ifs
    · exact ih.cons kv
    · exact ih.cons_cons kv

theorem nodup_lastOfEach (pairs : List (String × β)) :
    ((lastOfEach pairs).map Prod.fst).Nodup := by
  induction pairs with
  | nil => exact List.nodup_nil
  | cons kv pairs ih =>
    rw [lastOfEach]
    split_ifs with h
    · exact ih
    · rw [List.map_cons, List.nodup_cons]
      exact ⟨fun hmem => h (((lastOfEach_sublist pairs).map Prod.fst).subset hmem), ih⟩

theorem lastOfEach_eq_self {pairs : List (String × β)} (h : (pairs.map Prod.fst).Nodup) :
    lastOfEach pairs = pairs := by
  induction pairs with
  | nil => rfl
  | cons kv pairs ih =>
    rw [List.map_cons, List.nodup_cons] at h
    rw [lastOfEach, if_neg h.1, ih h.2]

theorem lastOfEach_map (f : β → γ) (pairs : List (String × β)) :
    lastOfEach (pairs.map fun kv => (kv.1, f kv.2)) =
      (lastOfEach pairs).map fun kv => (kv.1, f kv.2) := by
  induction pairs with
  | nil => rfl
  | cons kv pairs ih =>
    have hkeys : (pairs.map fun kv => (kv.1, f kv.2)).map Prod.fst = pairs.map Prod.fst := by
      rw [List.map_map]
      rfl
    rw [List.map_cons, lastOfEach, lastOfEach, hkeys, ih]
    split_ifs <;> rfl

/-- **All pairs stay exactly if no key comes up twice.** -/
theorem lastOfEach_perm_iff {pairs : List (String × β)} :
    (lastOfEach pairs).Perm pairs ↔ (pairs.map Prod.fst).Nodup := by
  constructor
  · exact fun h => (h.map Prod.fst).nodup_iff.mp (nodup_lastOfEach pairs)
  · exact fun h => List.Perm.of_eq (lastOfEach_eq_self h)

end LastOfEach

/-- A `Map` from pairs. -/
def collectMap (pairs : List (String × JsonValue F64)) : Mcp.JsonObject F64 where
  entries := Mcp.mapFromIter (lastOfEach pairs)
  nodup := by
    have hperm : (Mcp.mapFromIter (lastOfEach pairs)).Perm (lastOfEach pairs) :=
      List.perm_insertionSort _ _
    exact (hperm.map Prod.fst).nodup_iff.mpr (nodup_lastOfEach pairs)

/-- A `Map` of texts. -/
def collectTexts (pairs : List (String × String)) : Mcp.JsonObject F64 :=
  collectMap (pairs.map fun kv => (kv.1, JsonValue.string kv.2))

/-- The texts of a map are read back. -/
theorem texts_collectTexts (json : JsonCrate F64) (pairs : List (String × String)) :
    ((collectTexts pairs).entries.map fun kv => (kv.1, jsonText json kv.2)).Perm
      (lastOfEach pairs) := by
  have hperm : (collectTexts pairs : Mcp.JsonObject F64).entries.Perm
      ((lastOfEach pairs).map fun kv => (kv.1, JsonValue.string kv.2)) :=
    (List.perm_insertionSort _ _).trans (List.Perm.of_eq (lastOfEach_map _ _))
  refine (hperm.map _).trans (List.Perm.of_eq ?_)
  rw [List.map_map]
  exact List.map_id _

/-! ### The reply -/

/-- Cut streams to a number of entries: the newest, and of those of one time the first. -/
def limitStreams (limit : ℕ) (streams : List StreamResult) : List StreamResult :=
  if (streams.map fun sr => sr.entries.length).sum ≤ limit then streams
  else
    let all := streams.zipIdx.flatMap fun sr => sr.1.entries.map fun e => (sr.2, e)
    let kept := (List.sortByKey (fun e => OrderDual.toDual e.2.timestampNs) all).take limit
    streams.mapIdx fun idx sr => { sr with
      entries := List.sortByKey ResolvedEntry.timestampNs
        ((kept.filter fun e => e.1 = idx).map Prod.snd) }

/-- The streams of a reply. -/
def repliedStreams (limit : ℕ) (streams : List StreamResult) : List StreamResult :=
  (limitStreams limit streams).filter fun sr => !sr.entries.isEmpty

/-- The metadata of an entry: its ids, and its attributes. -/
def entryMetadata (e : ResolvedEntry) : List (String × String) :=
  e.traceId.toList.map (Prod.mk "trace_id") ++ (e.spanId.toList.map (Prod.mk "span_id") ++
    e.attributes)

/-- One value of a stream. -/
def formatValue (e : ResolvedEntry) : List (JsonValue F64) :=
  let metadata : Mcp.JsonObject F64 := collectTexts (entryMetadata e)
  if metadata.entries.isEmpty then [.string (toString e.timestampNs), .string e.line]
  else [.string (toString e.timestampNs), .string e.line, .object metadata.entries]

/-- One stream. -/
def formatStream (sr : StreamResult) : JsonStream F64 where
  stream := collectTexts sr.labels
  values := sr.entries.map formatValue

/-- `format_logql_result`, of streams. -/
def formatStreams (limit : ℕ) (streams : List StreamResult) : List (JsonStream F64) :=
  (repliedStreams limit streams).map formatStream

/-! ### What comes back -/

/-- A value that was read is an entry that was written. -/
structure Restores (e : ResolvedEntry) (value : LokiValue) : Prop where
  timestampNs : value.timestampNs = e.timestampNs
  line : value.line = e.line
  traceId : (value.traceId.map fun id => hexText id.toList) = e.traceId
  spanId : (value.spanId.map fun id => hexText id.toList) = e.spanId
  metadata : value.metadata.Perm e.attributes

/-- A stream that was read is one that was written. -/
def RestoresStream (sr : StreamResult) (stream : LokiStream) : Prop :=
  stream.labels.Perm sr.labels ∧ List.Forall₂ Restores sr.entries stream.values

/-- **An entry that comes back**: its time is one in nanoseconds, its ids are ids, and its
attributes have keys of their own. -/
structure Portable (e : ResolvedEntry) : Prop where
  isI64 : e.timestampNs ∈ Set.Icc i64Min i64Max
  isNanos : 10 ^ 18 < e.timestampNs ∨ e.timestampNs = 0 ∨ e.timestampNs = i64Min
  traceId : ∃ id : Option TraceId, e.traceId = id.map fun id => hexText id.toList
  spanId : ∃ id : Option SpanId, e.spanId = id.map fun id => hexText id.toList
  nodup : (e.attributes.map Prod.fst).Nodup
  notIds : ∀ kv ∈ e.attributes, kv.1 ∉ traceKeys ++ spanKeys

/-- A stream comes back if its labels have keys of their own and its entries do. -/
def StreamResult.Portable (sr : StreamResult) : Prop :=
  (sr.labels.map Prod.fst).Nodup ∧ ∀ e ∈ sr.entries, LogQL.Portable e

/-! ### One entry -/

section Entry

variable [FloatOps F64] (json : JsonCrate F64)

/-- What the ingest reads of an entry that was written. -/
def readBack (e : ResolvedEntry) : Option LokiValue :=
  (deserializeLogValue json (formatValue e)).bind (RawLokiValue.read json)

/-- The metadata as it is read. -/
def parsedMetadata (e : ResolvedEntry) : ParsedMeta :=
  parseLokiMetadata json (collectTexts (entryMetadata e)).entries

omit [FloatOps F64] in
/-- An entry without metadata has none, and it is read as an empty map is. -/
theorem exists_deserializeLogValue (e : ResolvedEntry) : ∃ metadata,
    deserializeLogValue json (formatValue e) = some ⟨toString e.timestampNs, e.line, metadata⟩ ∧
      (metadata.map (parseLokiMetadata json)).getD ⟨none, none, []⟩ = parsedMetadata json e := by
  rw [formatValue, parsedMetadata]
  cases (collectTexts (entryMetadata e) : Mcp.JsonObject F64).entries with
  | nil => exact ⟨none, rfl, rfl⟩
  | cons kv entries => exact ⟨some (kv :: entries), rfl, rfl⟩

theorem readBack_eq_some_iff {e : ResolvedEntry} {value : LokiValue} :
    readBack json e = some value ↔
      parseTimestampNs F64 (toString e.timestampNs) = some value.timestampNs ∧
        value.line = e.line ∧ value.traceId = (parsedMetadata json e).traceId ∧
          value.spanId = (parsedMetadata json e).spanId ∧
            value.metadata = (parsedMetadata json e).attrs := by
  have hread : readBack json e = (parseTimestampNs F64 (toString e.timestampNs)).pmap
      (fun timestampNs hmem => (⟨timestampNs, hmem, e.line, (parsedMetadata json e).traceId,
        (parsedMetadata json e).spanId, (parsedMetadata json e).attrs⟩ : LokiValue))
      fun _ h => parseTimestampNs_mem F64 h := by
    obtain ⟨metadata, hvalue, hmetadata⟩ := exists_deserializeLogValue json e
    rw [readBack, hvalue, Option.bind_some, RawLokiValue.read]
    simp only [hmetadata]
  rw [hread, Option.pmap_eq_some_iff]
  constructor
  · rintro ⟨ns, hmem, hns, rfl⟩
    exact ⟨hns, rfl, rfl, rfl, rfl⟩
  · obtain ⟨ns, hmem, line, traceId, spanId, metadata⟩ := value
    rintro ⟨hns, rfl, rfl, rfl, rfl⟩
    exact ⟨ns, hmem, hns, rfl⟩

omit [FloatOps F64] in
/-- The attributes that come back are those whose keys are no ids, the last of each key. -/
theorem attrs_parsedMetadata (e : ResolvedEntry) : (parsedMetadata json e).attrs.Perm
    ((lastOfEach (entryMetadata e)).filter fun kv => kv.1 ∉ traceKeys ++ spanKeys) := by
  have hperm := (texts_collectTexts json (entryMetadata e)).filter
    fun kv => decide (kv.1 ∉ traceKeys ++ spanKeys)
  rw [List.filter_map] at hperm
  rw [parsedMetadata, parseLokiMetadata_spec]
  exact hperm

omit [FloatOps F64] in
/-- The last of the members of some keys, if there is one at most. -/
theorem lastOf_collectTexts {keys : List String} {pairs : List (String × String)} {key : String}
    {text : Option String} (h : (lastOfEach pairs).filter (fun kv => kv.1 ∈ keys) =
      text.toList.map (Prod.mk key)) :
    lastOf json keys (collectTexts pairs).entries = text := by
  have hfilter := (texts_collectTexts json pairs).filter fun kv => decide (kv.1 ∈ keys)
  rw [h, List.filter_map] at hfilter
  have hperm : (((collectTexts pairs : Mcp.JsonObject F64).entries.filter fun kv => kv.1 ∈ keys).map
      fun kv => (kv.1, jsonText json kv.2)).Perm (text.toList.map (Prod.mk key)) := hfilter
  have hlast : lastOf json keys (collectTexts pairs).entries =
      ((((collectTexts pairs).entries.filter fun kv => kv.1 ∈ keys).map
        fun kv => (kv.1, jsonText json kv.2)).getLast?).map Prod.snd := by
    rw [lastOf, List.getLast?_map, Option.map_map]
    rfl
  rw [hlast]
  cases text with
  | none => rw [List.perm_nil.mp hperm]; rfl
  | some text => rw [List.perm_singleton.mp hperm]; rfl

omit [FloatOps F64] in
/-- **The metadata of a portable entry** is told apart again. -/
theorem parsedMetadata_of_portable {e : ResolvedEntry} (h : Portable e) :
    ((parsedMetadata json e).traceId.map fun id => hexText id.toList) = e.traceId ∧
      ((parsedMetadata json e).spanId.map fun id => hexText id.toList) = e.spanId ∧
        (parsedMetadata json e).attrs.Perm e.attributes := by
  have hattr : ∀ kv ∈ e.attributes, kv.1 ∉ traceKeys ∧ kv.1 ∉ spanKeys := by
    intro kv hkv
    simpa using h.notIds kv hkv
  have htraceKey : "trace_id" ∈ traceKeys ∧ "trace_id" ∉ spanKeys := by decide
  have hspanKey : "span_id" ∉ traceKeys ∧ "span_id" ∈ spanKeys := by decide
  have hfilter : ∀ p : String → Bool, (entryMetadata e).filter (fun kv => p kv.1) =
      (if p "trace_id" then e.traceId.toList.map (Prod.mk "trace_id") else []) ++
        ((if p "span_id" then e.spanId.toList.map (Prod.mk "span_id") else []) ++
          e.attributes.filter fun kv => p kv.1) := by
    intro p
    rw [entryMetadata, List.filter_append, List.filter_append]
    cases e.traceId <;> cases e.spanId <;>
      simp [List.filter_cons]
  have htrace : (entryMetadata e).filter (fun kv => kv.1 ∈ traceKeys) =
      e.traceId.toList.map (Prod.mk "trace_id") := by
    have hnone : e.attributes.filter (fun kv => decide (kv.1 ∈ traceKeys)) = [] :=
      List.filter_eq_nil_iff.mpr fun kv hkv => by simpa using (hattr kv hkv).1
    rw [hfilter fun key => decide (key ∈ traceKeys), hnone]
    simp [htraceKey, hspanKey]
  have hspan : (entryMetadata e).filter (fun kv => kv.1 ∈ spanKeys) =
      e.spanId.toList.map (Prod.mk "span_id") := by
    have hnone : e.attributes.filter (fun kv => decide (kv.1 ∈ spanKeys)) = [] :=
      List.filter_eq_nil_iff.mpr fun kv hkv => by simpa using (hattr kv hkv).2
    rw [hfilter fun key => decide (key ∈ spanKeys), hnone]
    simp [htraceKey, hspanKey]
  have hrest : (entryMetadata e).filter (fun kv => kv.1 ∉ traceKeys ++ spanKeys) =
      e.attributes := by
    have hall : e.attributes.filter (fun kv => decide (kv.1 ∉ traceKeys ++ spanKeys)) =
        e.attributes :=
      List.filter_eq_self.mpr fun kv hkv => by simpa using hattr kv hkv
    rw [hfilter fun key => decide (key ∉ traceKeys ++ spanKeys), hall]
    simp [htraceKey, hspanKey]
  have hkeys : ((entryMetadata e).map Prod.fst).Nodup := by
    have htraceNot : "trace_id" ∉ e.attributes.map Prod.fst := fun hmem => by
      obtain ⟨kv, hkv, heq⟩ := List.mem_map.mp hmem
      exact (hattr kv hkv).1 (heq ▸ htraceKey.1)
    have hspanNot : "span_id" ∉ e.attributes.map Prod.fst := fun hmem => by
      obtain ⟨kv, hkv, heq⟩ := List.mem_map.mp hmem
      exact (hattr kv hkv).2 (heq ▸ hspanKey.2)
    have hnodup := h.nodup
    rw [entryMetadata]
    cases e.traceId <;> cases e.spanId <;> simp [htraceNot, hspanNot, hnodup]
  rw [← lastOfEach_eq_self hkeys] at htrace hspan hrest
  have hattrs := attrs_parsedMetadata json e
  rw [hrest] at hattrs
  obtain ⟨traceId, htraceId⟩ := h.traceId
  obtain ⟨spanId, hspanId⟩ := h.spanId
  refine ⟨?_, ?_, hattrs⟩
  · rw [parsedMetadata, parseLokiMetadata_spec]
    dsimp only
    rw [lastOf_collectTexts json htrace, htraceId]
    exact congrArg _ (bind_parseHexId_hexText traceId)
  · rw [parsedMetadata, parseLokiMetadata_spec]
    dsimp only
    rw [lastOf_collectTexts json hspan, hspanId]
    exact congrArg _ (bind_parseHexId_hexText spanId)

/-- **An entry comes back exactly if it is portable.** -/
theorem exists_restores_iff {e : ResolvedEntry} :
    (∃ value, readBack json e = some value ∧ Restores e value) ↔ Portable e := by
  constructor
  · rintro ⟨value, hread, hrestores⟩
    obtain ⟨hns, -, -, -, hmetadata⟩ := (readBack_eq_some_iff json).mp hread
    have hmem : e.timestampNs ∈ Set.Icc i64Min i64Max :=
      hrestores.timestampNs ▸ value.timestampNs_mem
    have hclass : classifyToNs e.timestampNs = e.timestampNs := by
      rw [parseTimestampNs_toString F64 hmem] at hns
      exact (Option.some.inj hns).trans hrestores.timestampNs
    have hattrs : e.attributes.Perm _ :=
      hrestores.metadata.symm.trans (hmetadata ▸ attrs_parsedMetadata json e)
    have hsub := (List.filter_sublist (p := fun kv : String × String =>
      decide (kv.1 ∉ traceKeys ++ spanKeys)) (l := lastOfEach (entryMetadata e)))
    exact {
      isI64 := hmem
      isNanos := (classifyToNs_eq_self_iff hmem).mp hclass
      traceId := ⟨value.traceId, hrestores.traceId.symm⟩
      spanId := ⟨value.spanId, hrestores.spanId.symm⟩
      nodup := (hattrs.map Prod.fst).nodup_iff.mpr
        ((nodup_lastOfEach _).sublist (hsub.map Prod.fst))
      notIds := fun kv hkv => of_decide_eq_true (List.mem_filter.mp (hattrs.mem_iff.mp hkv)).2 }
  · intro h
    obtain ⟨htraceId, hspanId, hattrs⟩ := parsedMetadata_of_portable json h
    have hns := parseTimestampNs_toString F64 h.isI64
    rw [(classifyToNs_eq_self_iff h.isI64).mpr h.isNanos] at hns
    let value : LokiValue := ⟨e.timestampNs, h.isI64, e.line, (parsedMetadata json e).traceId,
      (parsedMetadata json e).spanId, (parsedMetadata json e).attrs⟩
    exact ⟨value, (readBack_eq_some_iff json).mpr ⟨hns, rfl, rfl, rfl, rfl⟩,
      ⟨rfl, rfl, htraceId, hspanId, hattrs⟩⟩

end Entry

/-! ### The whole reply -/

/-- What a filter keeps stands for what it was given only if it keeps all. -/
theorem forall₂_filterMap_iff {α β : Type} {R : α → β → Prop} {f : α → Option β} {l : List α} :
    List.Forall₂ R l (l.filterMap f) ↔ ∀ a ∈ l, ∃ b, f a = some b ∧ R a b := by
  induction l with
  | nil => simp
  | cons a l ih =>
    cases hf : f a with
    | none =>
      have hlength : ¬ List.Forall₂ R (a :: l) ((a :: l).filterMap f) := by
        intro h
        have hle := List.length_filterMap_le f l
        have heq := h.length_eq
        rw [List.filterMap_cons_none hf, List.length_cons] at heq
        omega
      have hnone : ¬ ∀ a' ∈ a :: l, ∃ b, f a' = some b ∧ R a' b := by
        intro h
        obtain ⟨b, hb, -⟩ := h a List.mem_cons_self
        exact Option.some_ne_none b (hb.symm.trans hf)
      exact iff_of_false hlength hnone
    | some b =>
      rw [List.filterMap_cons_some hf, List.forall₂_cons, ih, List.forall_mem_cons, hf]
      refine and_congr_left fun _ => ⟨fun h => ⟨b, rfl, h⟩, ?_⟩
      rintro ⟨b', hb', h⟩
      exact Option.some.inj hb' ▸ h

section Reply

variable [FloatOps F64] (json : JsonCrate F64)

/-- **A stream comes back exactly if it is portable.** -/
theorem restoresStream_iff (sr : StreamResult) :
    RestoresStream sr ((formatStream sr).read json) ↔ sr.Portable := by
  have hvalues : ((formatStream sr).read json).values = sr.entries.filterMap (readBack json) := by
    rw [JsonStream.read, formatStream, List.filterMap_map, List.filterMap_filterMap]
    rfl
  have hlabels : ((formatStream sr).read json).labels.Perm (lastOfEach sr.labels) :=
    texts_collectTexts json sr.labels
  rw [RestoresStream, hvalues, forall₂_filterMap_iff, StreamResult.Portable,
    ← lastOfEach_perm_iff]
  refine and_congr ⟨hlabels.symm.trans, hlabels.trans⟩ ?_
  exact forall₂_congr fun e _ => exists_restores_iff json

/-- A reply is read stream by stream. -/
theorem forall₂_read_iff {R : StreamResult → LokiStream → Prop} (limit : ℕ)
    (streams : List StreamResult) :
    List.Forall₂ R (repliedStreams limit streams)
        ((formatStreams limit streams).map (JsonStream.read json)) ↔
      ∀ sr ∈ repliedStreams limit streams, R sr ((formatStream sr).read json) := by
  rw [formatStreams, List.map_map, List.forall₂_map_right_iff, List.forall₂_same]
  rfl

/-- **When a reply can be pushed**: the streams that come back are those that were written, entry by
entry, exactly if each of them is portable. -/
theorem restores_iff (limit : ℕ) (streams : List StreamResult) :
    List.Forall₂ RestoresStream (repliedStreams limit streams)
        ((formatStreams limit streams).map (JsonStream.read json)) ↔
      ∀ sr ∈ repliedStreams limit streams, sr.Portable := by
  rw [forall₂_read_iff]
  exact forall₂_congr fun sr _ => restoresStream_iff json sr

end Reply

end LogQL

end Aniani
