import Aniani.Query.PromQL.Eval
import Aniani.Query.Timestamps

/-!
# The series endpoint

`series` lists the series that any of the selectors given to it picks, each once. It turns a parsed
selector into matchers on its own: where the evaluator adds a matcher for the metric name, it takes
the ones in the braces and no more. No request with a selector gets that far: the selectors are a
list in the parameters of the handler, and what reads the query string makes no list of a value.

## Main definitions

* `SeriesParams`, `series` — the handler
* `PartReader`, `extractSeriesParams`, `seriesEndpoint` — the route
* `VectorSelector.bareName` — the name that the evaluator adds a matcher for

## Main results

* `series_lists_selected_iff` — when the handler lists what the evaluator selects, and that the
  endpoint never does
* `not_series_lists_selected` — asked for one metric, the endpoint refuses, the handler lists both
-/

namespace Aniani

namespace PromQL

variable {Rodeo Spur F64 : Type} [LinearOrder Spur] [Interner Rodeo Spur] [FloatOps F64]

/-! ### The handler -/

/-- `SeriesParams`. -/
structure SeriesParams where
  matchers : List String
  start : Option String
  finish : Option String

/-- A series as a JSON object: a later value of a name replaces an earlier one. -/
abbrev SeriesObject := FxHashMap String String

/-- The object of a label set. -/
def seriesObject (labels : SeriesLabelSet) : SeriesObject :=
  labels.foldl (fun map label => map.insert label.1 label.2) ∅

variable (F64) in
/-- A time bound, if there is one. -/
def timeBound (field : String) : Option String → Except String (Option ℤ)
  | none => .ok none
  | some s =>
    match parseTimestampMs F64 s with
    | some ms => .ok (some ms)
    | none => .error ("invalid " ++ field ++ ": " ++ s)

/-- What is listed for one series, nothing where a read fails: its object if it has samples in the
window and labels. -/
def listed (env : Env Rodeo Spur F64) (startMs endMs : Option ℤ) (id : ℕ) :
    Option (List SeriesObject) :=
  (hasSamplesInRange env.store startMs endMs id).map fun inRange =>
    if inRange then ((env.store.getStreamLabels id).map seriesObject).toList else []

/-- One id of a selector: nothing is listed for it if it was seen before. -/
def offerSeries (env : Env Rodeo Spur F64) (startMs endMs : Option ℤ)
    (acc : FxHashSet ℕ × List SeriesObject) (id : ℕ) : Option (FxHashSet ℕ × List SeriesObject) :=
  if id ∈ acc.1 then some acc
  else (listed env startMs endMs id).map fun objects => (insert id acc.1, acc.2 ++ objects)

/-- The loop over the selectors; an error at the first one that is none. -/
def offerSelectors (env : Env Rodeo Spur F64) (parse : String → Except String (Expr F64))
    (startMs endMs : Option ℤ) :
    List String → FxHashSet ℕ × List SeriesObject → Option (Except String (List SeriesObject))
  | [], acc => some (.ok acc.2)
  | text :: texts, acc =>
    match parse text with
    | .ok (.vectorSelector vs) => do
      let acc ← (env.selectSeries (convertMatchers vs.matchers)).foldlM
        (offerSeries env startMs endMs) acc
      offerSelectors env parse startMs endMs texts acc
    | _ => some (.error ("invalid match[] selector: " ++ text))

/-- `series`, with the parser of the `promql-parser` crate; nothing where a read fails. -/
def series (env : Env Rodeo Spur F64) (parse : String → Except String (Expr F64)) (params : SeriesParams) :
    Option (Except String (List SeriesObject)) :=
  match timeBound F64 "start" params.start, timeBound F64 "end" params.finish with
  | .error e, _ => some (.error e)
  | .ok _, .error e => some (.error e)
  | .ok startMs, .ok endMs =>
    if params.matchers.isEmpty then
      ((env.it.keys env.store.streams).mapM (listed env startMs endMs)).map fun objects =>
        .ok objects.flatten
    else offerSelectors env parse startMs endMs params.matchers (∅, [])

/-! ### The route -/

/-- How `serde_urlencoded` reads the value of a key, into a text and into a list of texts. -/
structure PartReader where
  string : String → Option String
  strings : String → Option (List String)

/-- What the documentation says of it: a value is a text, and never a sequence. -/
structure PartReader.Lawful (reader : PartReader) : Prop where
  string_eq : ∀ value, reader.string value = some value
  strings_eq : ∀ value, reader.strings value = none

/-- The fields of `SeriesParams` that have come up. -/
structure SeriesFields where
  matchers : Option (List String)
  start : Option String
  finish : Option String

/-- One key with its value in the visitor that `Deserialize` derives: no field comes up twice, and
other keys are skipped. -/
def SeriesFields.visit (reader : PartReader) (fields : SeriesFields) (pair : String × String) :
    Option SeriesFields :=
  if pair.1 = "match[]" then
    if fields.matchers.isSome then none
    else (reader.strings pair.2).map fun texts => { fields with matchers := some texts }
  else if pair.1 = "start" then
    if fields.start.isSome then none
    else (reader.string pair.2).map fun text => { fields with start := some text }
  else if pair.1 = "end" then
    if fields.finish.isSome then none
    else (reader.string pair.2).map fun text => { fields with finish := some text }
  else some fields

/-- `Query<SeriesParams>` on the pairs of a query string, nothing where it rejects the request;
`match[]` has a default. -/
def extractSeriesParams (reader : PartReader) (pairs : List (String × String)) :
    Option SeriesParams :=
  (pairs.foldlM (SeriesFields.visit reader) ⟨none, none, none⟩).map fun fields =>
    ⟨fields.matchers.getD [], fields.start, fields.finish⟩

/-- What a request for the series is answered with. -/
inductive SeriesReply where
  /-- `400 Bad Request`, by the extractor. -/
  | rejected
  /-- What the handler says, an error as `400 Bad Request`. -/
  | handled (result : Option (Except String (List SeriesObject)))

/-- `GET /api/v1/series`. -/
def seriesEndpoint (reader : PartReader) (env : Env Rodeo Spur F64)
    (parse : String → Except String (Expr F64)) (pairs : List (String × String)) : SeriesReply :=
  match extractSeriesParams reader pairs with
  | none => .rejected
  | some params => .handled (series env parse params)

/-- **No query string with a selector** is read. -/
theorem extractSeriesParams_eq_none {reader : PartReader} (hreader : reader.Lawful)
    {pairs : List (String × String)} (h : "match[]" ∈ pairs.map Prod.fst) :
    extractSeriesParams reader pairs = none := by
  have hfold (fields : SeriesFields) : pairs.foldlM (SeriesFields.visit reader) fields = none := by
    induction pairs generalizing fields with
    | nil => exact absurd h List.not_mem_nil
    | cons pair pairs ih =>
      rw [List.foldlM_cons]
      by_cases hkey : pair.1 = "match[]"
      · have hvisit : fields.visit reader pair = none := by
          rw [SeriesFields.visit, if_pos hkey, hreader.strings_eq]
          exact ite_self _
        rw [hvisit]
        rfl
      · have hrest := (List.mem_cons.mp h).resolve_left (Ne.symm hkey)
        cases fields.visit reader pair with
        | none => rfl
        | some fields => exact ih hrest fields
  rw [extractSeriesParams, hfold]
  rfl

/-! ### One selector -/

/-- The objects of the series of a list of ids. -/
def Env.objects (env : Env Rodeo Spur F64) (ids : List ℕ) : List SeriesObject :=
  ids.filterMap fun id => (env.store.getStreamLabels id).map seriesObject

omit [FloatOps F64] in
theorem Env.nodup_selectSeries (env : Env Rodeo Spur F64) (ms : List LabelMatcher) :
    (env.selectSeries ms).Nodup := LabelStore.nodup_select _ _ _ _

omit [LinearOrder Spur] [FloatOps F64] in
theorem foldlM_offerSeries (env : Env Rodeo Spur F64) {ids : List ℕ} (hn : ids.Nodup)
    (acc : FxHashSet ℕ × List SeriesObject) (hacc : ∀ id ∈ ids, id ∉ acc.1) :
    ids.foldlM (offerSeries env none none) acc =
      some (acc.1 ∪ ids.toFinset, acc.2 ++ env.objects ids) := by
  induction ids generalizing acc with
  | nil => simp [Env.objects]
  | cons id ids ih =>
    obtain ⟨hid, hn⟩ := List.nodup_cons.mp hn
    have hlisted : listed env none none id =
        some ((env.store.getStreamLabels id).map seriesObject).toList := rfl
    rw [List.foldlM_cons, offerSeries, if_neg (hacc id List.mem_cons_self), hlisted]
    show List.foldlM _ _ ids = _
    rw [ih hn]
    · congr 2
      · ext i
        simp
      · rw [Env.objects, Env.objects, List.filterMap_cons]
        cases (env.store.getStreamLabels id).map seriesObject <;> simp
    · intro i hi hmem
      rcases Finset.mem_insert.mp hmem with rfl | hmem
      · exact hid hi
      · exact hacc i (List.mem_cons_of_mem _ hi) hmem

/-- What one selector lists without time bounds. -/
theorem series_singleton (env : Env Rodeo Spur F64) (parse : String → Except String (Expr F64))
    {text : String} {vs : VectorSelector} (hparse : parse text = .ok (.vectorSelector vs)) :
    series env parse ⟨[text], none, none⟩ =
      some (.ok (env.objects (env.selectSeries (convertMatchers vs.matchers)))) := by
  have hfold := foldlM_offerSeries env (env.nodup_selectSeries (convertMatchers vs.matchers))
    (∅, []) fun id _ => Finset.notMem_empty id
  show offerSelectors env parse none none [text] (∅, []) = _
  simp only [offerSelectors, hparse]
  rw [hfold]
  rfl

/-! ### The name -/

/-- The name that the evaluator adds a matcher for. -/
def VectorSelector.bareName (vs : VectorSelector) : Option String :=
  vs.name.filter fun _ => !vs.matchers.any fun m => m.name == "__name__"

theorem vsMatchers_eq (vs : VectorSelector) :
    vsMatchers vs = convertMatchers vs.matchers ++
      (vs.bareName.map fun name => (⟨"__name__", .eq, name⟩ : LabelMatcher)).toList := by
  have hany : ((convertMatchers vs.matchers).any fun m => m.name == "__name__") =
      vs.matchers.any fun m => m.name == "__name__" := by
    rw [convertMatchers, List.any_map]
    rfl
  rw [vsMatchers, VectorSelector.bareName, hany]
  cases vs.name with
  | none => simp
  | some name => cases vs.matchers.any fun m => m.name == "__name__" <;> simp [Option.filter]

omit [FloatOps F64] in
/-- A matcher more selects what both select, of the series there are. -/
theorem mem_selectSeries_concat (env : Env Rodeo Spur F64) (ms : List LabelMatcher)
    (m : LabelMatcher) {id : ℕ} (hid : id ∈ env.store.streams) :
    id ∈ env.selectSeries (ms ++ [m]) ↔ id ∈ env.selectSeries ms ∧ id ∈ env.selectSeries [m] := by
  simp only [Env.selectSeries, MetricStore.selectSeries, LabelStore.mem_select_iff_matcherIds]
  rw [if_neg (by simp), if_neg (List.cons_ne_nil m [])]
  simp only [List.mem_append, or_imp, forall_and]
  refine and_congr_left fun _ => ?_
  split
  · next hnil => simp [hnil, hid]
  · rfl

omit [LinearOrder Spur] [FloatOps F64] in
/-- Only the series there are have an object. -/
theorem objects_filter (env : Env Rodeo Spur F64) (ids : List ℕ) :
    env.objects (ids.filter fun id => decide (id ∈ env.store.streams)) = env.objects ids ∧
      (env.objects ids).length = (ids.filter fun id => decide (id ∈ env.store.streams)).length := by
  induction ids with
  | nil => exact ⟨rfl, rfl⟩
  | cons id ids ih =>
    rw [Env.objects, Env.objects] at ih ⊢
    obtain ⟨hobjects, hlength⟩ := ih
    rw [List.filter_cons, List.filterMap_cons, LabelStore.getStreamLabels]
    by_cases hid : id ∈ env.store.streams
    · obtain ⟨stream, hst⟩ := Finmap.mem_iff.mp hid
      rw [if_pos (by simpa using hid), List.filterMap_cons, LabelStore.getStreamLabels, hst, hobjects]
      exact ⟨rfl, congrArg (· + 1) hlength⟩
    · rw [if_neg (by simpa using hid), Finmap.lookup_eq_none.mpr hid]
      exact ⟨hobjects, hlength⟩

omit [LinearOrder Spur] [FloatOps F64] in
/-- Of two lists of which one has the other in it, they give the same objects exactly when they
have the same series. -/
theorem objects_perm_iff (env : Env Rodeo Spur F64) {ids ids' : List ℕ} (hn : ids.Nodup)
    (hn' : ids'.Nodup) (hsub : ∀ id ∈ env.store.streams, id ∈ ids' → id ∈ ids) :
    (env.objects ids).Perm (env.objects ids') ↔
      ∀ id ∈ env.store.streams, id ∈ ids → id ∈ ids' := by
  obtain ⟨hobjects, hlength⟩ := objects_filter env ids
  obtain ⟨hobjects', hlength'⟩ := objects_filter env ids'
  have hsubperm : (ids'.filter fun id => decide (id ∈ env.store.streams)).Subperm
      (ids.filter fun id => decide (id ∈ env.store.streams)) :=
    (hn'.filter _).subperm fun id hid => by
      obtain ⟨hid, hlive⟩ := List.mem_filter.mp hid
      exact List.mem_filter.mpr ⟨hsub id (of_decide_eq_true hlive) hid, hlive⟩
  constructor
  · intro hperm id hlive hid
    have hle := hperm.length_eq
    rw [hlength, hlength'] at hle
    have hmem := (hsubperm.perm_of_length_le hle.le).mem_iff.mpr
      (List.mem_filter.mpr ⟨hid, decide_eq_true hlive⟩)
    exact (List.mem_filter.mp hmem).1
  · intro h
    rw [← hobjects, ← hobjects']
    refine List.Perm.filterMap _ ((List.perm_ext_iff_of_nodup (hn.filter _) (hn'.filter _)).mpr ?_)
    intro id
    simp only [List.mem_filter, decide_eq_true_iff]
    exact and_congr_left fun hlive => ⟨h id hlive, hsub id hlive⟩

/-! ### The endpoint and the evaluator -/

/-- The reply lists the series that the evaluator selects, in any order. -/
def SeriesReply.ListsSelected (env : Env Rodeo Spur F64) (vs : VectorSelector)
    (reply : SeriesReply) : Prop :=
  ∃ data, reply = .handled (some (.ok data)) ∧
    data.Perm (env.objects (env.selectSeries (vsMatchers vs)))

omit [FloatOps F64] in
/-- A name more makes no difference to the matchers in the braces exactly when every series they
select has the name. -/
theorem objects_bareName_perm_iff (env : Env Rodeo Spur F64) (vs : VectorSelector) :
    (env.objects (env.selectSeries (convertMatchers vs.matchers))).Perm
        (env.objects (env.selectSeries (vsMatchers vs))) ↔
      ∀ name, vs.bareName = some name → ∀ id ∈ env.store.streams,
        id ∈ env.selectSeries (convertMatchers vs.matchers) →
          id ∈ env.selectSeries [⟨"__name__", .eq, name⟩] := by
  rw [vsMatchers_eq]
  cases vs.bareName with
  | none => simp
  | some name =>
    have hmem := fun {id} (hlive : id ∈ env.store.streams) =>
      mem_selectSeries_concat env (convertMatchers vs.matchers) ⟨"__name__", .eq, name⟩ hlive
    rw [objects_perm_iff env (env.nodup_selectSeries _) (env.nodup_selectSeries _)]
    · constructor
      · rintro h n ⟨⟩ id hlive hid
        exact ((hmem hlive).mp (h id hlive hid)).2
      · intro h id hlive hid
        exact (hmem hlive).mpr ⟨hid, h name rfl id hlive hid⟩
    · exact fun id hlive hid => ((hmem hlive).mp hid).1

/-- **The endpoint never lists what the evaluator selects**: it rejects every request that has a
selector. The handler, given one as the text it asks for, lists it exactly when every series that
the matchers in the braces select has the bare name, if there is one. -/
theorem series_lists_selected_iff {reader : PartReader} (hreader : reader.Lawful)
    (env : Env Rodeo Spur F64) (parse : String → Except String (Expr F64)) {text : String}
    {vs : VectorSelector} (hparse : parse text = .ok (.vectorSelector vs)) :
    (∀ pairs, ("match[]", text) ∈ pairs →
      ¬ (seriesEndpoint reader env parse pairs).ListsSelected env vs) ∧
    ((SeriesReply.handled (series env parse ⟨[text], none, none⟩)).ListsSelected env vs ↔
      ∀ name, vs.bareName = some name → ∀ id ∈ env.store.streams,
        id ∈ env.selectSeries (convertMatchers vs.matchers) →
          id ∈ env.selectSeries [⟨"__name__", .eq, name⟩]) := by
  constructor
  · rintro pairs hpair ⟨data, hdata, -⟩
    have hkey : "match[]" ∈ pairs.map Prod.fst := List.mem_map_of_mem hpair
    rw [seriesEndpoint, extractSeriesParams_eq_none hreader hkey] at hdata
    exact SeriesReply.noConfusion hdata
  · rw [← objects_bareName_perm_iff, series_singleton env parse hparse]
    constructor
    · rintro ⟨data, hdata, hperm⟩
      rwa [← Except.ok.inj (Option.some.inj (SeriesReply.handled.inj hdata))] at hperm
    · exact fun hperm => ⟨_, rfl, hperm⟩

/-- A store with the two metrics `up` and `down`. -/
def upAndDown : Env VecRodeo ℕ ℤ := Env.ofOps
  [.ingestSamples "up" [] [⟨0, 1, 0⟩], .ingestSamples "down" [] [⟨0, 1, 0⟩]]

/-- A parser that knows the query `up`. -/
def parseUp (text : String) : Except String (Expr ℤ) :=
  if text = "up" then .ok (.vectorSelector ⟨some "up", [], none, none⟩) else .error text

/-- A value is a text. -/
def texts : PartReader := ⟨some, fun _ => none⟩

theorem lawful_texts : texts.Lawful := ⟨fun _ => rfl, fun _ => rfl⟩

/-- Of the handler asked for `up`, the two conditions are the same; the endpoint asked for it with a
time bound rejects that. -/
theorem series_lists_selected_iff_up :
    ¬ (seriesEndpoint texts upAndDown parseUp [("start", "0"), ("match[]", "up")]).ListsSelected
        upAndDown ⟨some "up", [], none, none⟩ ∧
    ((SeriesReply.handled (series upAndDown parseUp ⟨["up"], none, none⟩)).ListsSelected upAndDown
        ⟨some "up", [], none, none⟩ ↔
      ∀ name, VectorSelector.bareName ⟨some "up", [], none, none⟩ = some name →
        ∀ id ∈ upAndDown.store.streams, id ∈ upAndDown.selectSeries (convertMatchers []) →
          id ∈ upAndDown.selectSeries [⟨"__name__", .eq, name⟩]) :=
  have hparse : parseUp "up" = .ok (.vectorSelector ⟨some "up", [], none, none⟩) := rfl
  have h := series_lists_selected_iff lawful_texts upAndDown parseUp hparse
  ⟨h.1 _ (List.mem_cons_of_mem _ List.mem_cons_self), h.2⟩

/-- **Asked for `up`, the endpoint rejects the request**, and the handler lists both metrics where
the evaluator selects one. -/
theorem not_series_lists_selected :
    seriesEndpoint texts upAndDown parseUp [("match[]", "up")] = .rejected ∧
    ¬ (seriesEndpoint texts upAndDown parseUp [("match[]", "up")]).ListsSelected upAndDown
      ⟨some "up", [], none, none⟩ ∧
    ∃ data, series upAndDown parseUp ⟨["up"], none, none⟩ = some (.ok data) ∧ data.length = 2 ∧
      (upAndDown.selectSeries (vsMatchers ⟨some "up", [], none, none⟩)).length = 1 ∧
      ¬ data.Perm (upAndDown.objects (upAndDown.selectSeries
        (vsMatchers ⟨some "up", [], none, none⟩))) := by
  have hdata : (upAndDown.objects (upAndDown.selectSeries (convertMatchers []))).length = 2 := by
    decide
  have hselected : upAndDown.selectSeries (vsMatchers ⟨some "up", [], none, none⟩) = [0] := by
    decide
  have hrejected : seriesEndpoint texts upAndDown parseUp [("match[]", "up")] = .rejected := by
    rw [seriesEndpoint, extractSeriesParams_eq_none lawful_texts (by decide)]
  refine ⟨hrejected, ?_, _, series_singleton upAndDown parseUp rfl, hdata, by rw [hselected]; rfl,
    fun hperm => ?_⟩
  · rw [hrejected]
    rintro ⟨data, hreply, -⟩
    exact SeriesReply.noConfusion hreply
  · have hlength := hperm.length_eq
    rw [hdata, hselected] at hlength
    exact absurd hlength (by decide)

end PromQL

end Aniani
