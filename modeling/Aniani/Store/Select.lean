import Aniani.Store.LogStore
import Aniani.Store.MetricStore

/-!
# Selecting streams by their labels

`select_indexed_ids` answers a list of label matchers from the posting lists, without looking at a
stream. Each matcher becomes one posting list, or ends the query at once with nothing; the result
is the intersection. The regex crate is not part of the repository: `Regex::new` is a parameter
that gives, for a pattern that compiles, an arbitrary predicate on strings.

What the answer should be is the plain filter of the live streams, one matcher after another
(`LabelMatcher.passes`), and on a store whose indexes fit it is.

The list of all ids and the cache of compiled patterns are computed once and reused in the source.
Both depend on nothing that changes during a query, so here they are computed where they are used.

## Main definitions

* `LabelMatchOp`, `LabelMatcher`
* `selectIndexedIds`, `LogStore.queryStreams`, `MetricStore.selectSeries`
* `LabelMatcher.passes` — the plain filter

## Main results

* `LabelStore.Indexed.mem_select` — the indexed query is the plain filter
* `LabelStore.Indexed.passes_of_mem_select` — where a pattern does not compile, a part of it
* `queryStreams_selectSeries_isFilter` — in every store reachable with ids left
* `queryStreams_after_exhaustion` — and what goes wrong when the ids have run out
-/

namespace Aniani

/-- Types of label matchers. -/
inductive LabelMatchOp where
  | eq | neq | regex | notRegex
  deriving DecidableEq

/-- A label matcher of a stream or series selector. -/
structure LabelMatcher where
  name : String
  op : LabelMatchOp
  value : String

/-- `compiled_label_regex`: the pattern, anchored at both ends. -/
def compiledLabelRegex (regexNew : String → Option (String → Bool)) (pattern : String) :
    Option (String → Bool) :=
  regexNew ("^(?:" ++ pattern ++ ")$")

/-! ### The indexed query -/

section Query

variable {Rodeo Spur : Type} [LinearOrder Spur] [Interner Rodeo Spur]

/-- The union of the posting lists of the values of a name that the regex matches. -/
def matchingIds (it : IterOrder Spur) (interner : Rodeo)
    (labelIndex : FxHashMap (Spur × Spur) PostingList)
    (labelValues : FxHashMap Spur (FxHashSet Spur)) (nameSpur : Spur) (re : String → Bool) :
    PostingList :=
  match labelValues.lookup nameSpur with
  | none => PostingList.new
  | some values =>
    (it.order values).foldl (fun result vs =>
      if re (Interner.resolve interner vs) then
        match labelIndex.lookup (nameSpur, vs) with
        | some pl => PostingList.union result pl
        | none => result
      else result) PostingList.new

/-- One turn of the loop over the matchers: the posting list of a matcher, or nothing where the
query returns at once. -/
def matcherIds (regexNew : String → Option (String → Bool)) (it : IterOrder Spur)
    (interner : Rodeo) (labelIndex : FxHashMap (Spur × Spur) PostingList)
    (labelValues : FxHashMap Spur (FxHashSet Spur)) (allIds : List ℕ) (matcher : LabelMatcher) :
    Option PostingList :=
  match Interner.get interner matcher.name with
  | none =>
    match matcher.op with
    | .neq | .notRegex => some (PostingList.fromIds allIds)
    | .eq | .regex => none
  | some nameSpur =>
    match matcher.op with
    | .eq =>
      match Interner.get interner matcher.value with
      | none => none
      | some valueSpur => labelIndex.lookup (nameSpur, valueSpur)
    | .neq =>
      let all := PostingList.fromIds allIds
      some ((((Interner.get interner matcher.value).bind fun vs =>
        labelIndex.lookup (nameSpur, vs)).map fun exclude =>
          PostingList.difference all exclude).getD all)
    | .regex =>
      (compiledLabelRegex regexNew matcher.value).map fun re =>
        matchingIds it interner labelIndex labelValues nameSpur re
    | .notRegex =>
      (compiledLabelRegex regexNew matcher.value).map fun re =>
        PostingList.difference (PostingList.fromIds allIds)
          (matchingIds it interner labelIndex labelValues nameSpur re)

/-- The loop over the matchers: all posting lists, or nothing as soon as one matcher ends the
query. -/
def positiveLists (ids : LabelMatcher → Option PostingList) :
    List LabelMatcher → Option (List PostingList)
  | [] => some []
  | matcher :: matchers =>
    match ids matcher with
    | none => none
    | some pl => (positiveLists ids matchers).map fun lists => pl :: lists

/-- `select_indexed_ids`. -/
def selectIndexedIds (regexNew : String → Option (String → Bool)) (it : IterOrder Spur)
    (interner : Rodeo) (labelIndex : FxHashMap (Spur × Spur) PostingList)
    (labelValues : FxHashMap Spur (FxHashSet Spur)) (allIds : List ℕ)
    (matchers : List LabelMatcher) : List ℕ :=
  if matchers.isEmpty then allIds
  else
    match positiveLists (matcherIds regexNew it interner labelIndex labelValues allIds)
      matchers with
    | none => []
    | some lists => PostingList.intersect lists

/-- The query of a label store. It walks the streams for the list of all ids and the values of a
name for a regex. -/
def LabelStore.select {α : Type} (regexNew : String → Option (String → Bool)) (it : IterOrder ℕ)
    (itValues : IterOrder Spur) (s : LabelStore Rodeo Spur α) (matchers : List LabelMatcher) :
    List ℕ :=
  selectIndexedIds regexNew itValues s.interner s.labelIndex s.labelValues (it.keys s.streams)
    matchers

variable {F64 : Type}

/-- `query_streams`. -/
def LogStore.queryStreams (regexNew : String → Option (String → Bool)) (it : IterOrder ℕ)
    (itValues : IterOrder Spur) (s : LogStore Rodeo Spur F64) (matchers : List LabelMatcher) :
    List ℕ :=
  s.select regexNew it itValues matchers

/-- `select_series`. -/
def MetricStore.selectSeries (regexNew : String → Option (String → Bool)) (it : IterOrder ℕ)
    (itValues : IterOrder Spur) (s : MetricStore Rodeo Spur F64) (matchers : List LabelMatcher) :
    List ℕ :=
  s.select regexNew it itValues matchers

end Query

/-! ### The plain filter -/

namespace LabelMatcher

/-- The pattern compiles, if the matcher has one. -/
def Compiles (regexNew : String → Option (String → Bool)) (m : LabelMatcher) : Prop :=
  m.op = .regex ∨ m.op = .notRegex → (compiledLabelRegex regexNew m.value).isSome

/-- A label of the name has a value that the compiled pattern matches. -/
def someValueMatches (regexNew : String → Option (String → Bool)) (labels : List (String × String))
    (m : LabelMatcher) : Prop :=
  ∃ value, (m.name, value) ∈ labels ∧
    (compiledLabelRegex regexNew m.value).any (fun re => re value) = true

/-- **The plain filter**: whether a label set passes a matcher. -/
def passes (regexNew : String → Option (String → Bool)) (labels : List (String × String))
    (m : LabelMatcher) : Prop :=
  match m.op with
  | .eq => (m.name, m.value) ∈ labels
  | .neq => (m.name, m.value) ∉ labels
  | .regex => m.someValueMatches regexNew labels
  | .notRegex => ¬ m.someValueMatches regexNew labels

end LabelMatcher

/-! ### The query is the filter -/

/-- The intersection of the lists holds what every matcher gives a list for and has in it. -/
theorem mem_intersect_positiveLists (ids : LabelMatcher → Option PostingList)
    {matchers : List LabelMatcher} (hne : matchers ≠ []) (id : ℕ) :
    id ∈ ((positiveLists ids matchers).map PostingList.intersect).getD [] ↔
      ∀ m ∈ matchers, ∃ pl, ids m = some pl ∧ id ∈ pl := by
  have key : ∀ (ms : List LabelMatcher),
      (∃ lists, positiveLists ids ms = some lists ∧ lists.length = ms.length ∧
        ((∀ l ∈ lists, id ∈ l) ↔ ∀ m ∈ ms, ∃ pl, ids m = some pl ∧ id ∈ pl)) ∨
      positiveLists ids ms = none ∧ ∃ m ∈ ms, ids m = none := by
    intro ms
    induction ms with
    | nil => exact Or.inl ⟨[], rfl, rfl, by simp⟩
    | cons m ms ih =>
      rw [positiveLists]
      cases hm : ids m with
      | none => exact Or.inr ⟨rfl, m, by simp, hm⟩
      | some pl =>
        rcases ih with ⟨lists, hlists, hlen, hiff⟩ | ⟨hnone, m', hm', hnone'⟩
        · refine Or.inl ⟨pl :: lists, by simp [hlists], by simp [hlen], ?_⟩
          simp only [List.forall_mem_cons, hiff, hm, Option.some.injEq, exists_eq_left']
        · exact Or.inr ⟨by simp [hnone], m', by simp [hm'], hnone'⟩
  rcases key matchers with ⟨lists, hlists, hlen, hiff⟩ | ⟨hnone, m, hm, hmnone⟩
  · have hlistsne : lists ≠ [] := fun h => hne (List.length_eq_zero_iff.mp (by rw [← hlen, h]; rfl))
    rw [hlists, ← hiff]
    exact PostingList.mem_intersect hlistsne
  · rw [hnone]
    refine ⟨fun h => absurd h (by simp), fun h => ?_⟩
    obtain ⟨pl, hpl, -⟩ := h m hm
    rw [hmnone] at hpl
    exact absurd hpl (by simp)

namespace LabelStore

variable {Rodeo Spur α : Type} [LinearOrder Spur] [Interner Rodeo Spur] [Timestamped α]
variable {regexNew : String → Option (String → Bool)}

/-- The union over the matching values holds the streams with a label that matches. -/
theorem Indexed.mem_matchingIds {s : LabelStore Rodeo Spur α} (h : s.Indexed)
    (it : IterOrder Spur) (nameSpur : Spur) (re : String → Bool) (id : ℕ) :
    id ∈ matchingIds it s.interner s.labelIndex s.labelValues nameSpur re ↔
      ∃ vs, s.Carries (nameSpur, vs) id ∧ re (Interner.resolve s.interner vs) = true := by
  have hfold : ∀ (vss : List Spur) (acc : PostingList),
      id ∈ vss.foldl (fun result vs =>
        if re (Interner.resolve s.interner vs) then
          match s.labelIndex.lookup (nameSpur, vs) with
          | some pl => PostingList.union result pl
          | none => result
        else result) acc ↔
      id ∈ acc ∨ ∃ vs ∈ vss, s.Carries (nameSpur, vs) id ∧
        re (Interner.resolve s.interner vs) = true := by
    intro vss
    induction vss with
    | nil => simp
    | cons vs vss ih =>
      intro acc
      have hstep : id ∈ (if re (Interner.resolve s.interner vs) then
          match s.labelIndex.lookup (nameSpur, vs) with
          | some pl => PostingList.union acc pl
          | none => acc
        else acc) ↔
          id ∈ acc ∨ s.Carries (nameSpur, vs) id ∧ re (Interner.resolve s.interner vs) = true := by
        split
        · next hre =>
          cases hpl : s.labelIndex.lookup (nameSpur, vs) with
          | none =>
            refine (or_iff_left fun hc => ?_).symm
            obtain ⟨pl, hpl', -⟩ := (h.labelIndex.holds_iff (nameSpur, vs) id).mpr hc.1
            rw [hpl] at hpl'
            exact absurd hpl' (by simp)
          | some pl =>
            rw [PostingList.mem_union, h.labelIndex.mem_lookup hpl]
            simp [hre]
        · next hre => simp [hre]
      rw [List.foldl_cons, ih, hstep]
      simp only [List.exists_mem_cons_iff, or_assoc]
  rw [matchingIds]
  cases hvalues : s.labelValues.lookup nameSpur with
  | none =>
    refine iff_of_false (PostingList.notMem_new id) ?_
    rintro ⟨vs, hc, -⟩
    obtain ⟨values, hvalues', -⟩ := (h.labelValues.holds_iff nameSpur vs).mpr ⟨id, hc⟩
    rw [hvalues] at hvalues'
    exact absurd hvalues' (by simp)
  | some values =>
    refine (hfold (it.order values) PostingList.new).trans ?_
    rw [or_iff_right (PostingList.notMem_new id)]
    constructor
    · rintro ⟨vs, -, hc, hre⟩
      exact ⟨vs, hc, hre⟩
    · rintro ⟨vs, hc, hre⟩
      exact ⟨vs, it.mem_order.mpr ((h.labelValues.mem_lookup hvalues vs).mpr ⟨id, hc⟩), hc, hre⟩

/-- The index has the stream under the pair of the matcher. -/
def PicksPair (s : LabelStore Rodeo Spur α) (m : LabelMatcher) (id : ℕ) : Prop :=
  ∃ k, Interner.get s.interner m.name = some k ∧
    ∃ v, Interner.get s.interner m.value = some v ∧ s.Carries (k, v) id

/-- The index has the stream under the name of the matcher and a value that matches. -/
def PicksMatch (s : LabelStore Rodeo Spur α) (m : LabelMatcher) (re : String → Bool) (id : ℕ) :
    Prop :=
  ∃ k, Interner.get s.interner m.name = some k ∧
    ∃ v, s.Carries (k, v) id ∧ re (Interner.resolve s.interner v) = true

omit [LinearOrder Spur] [Timestamped α] in
theorem PicksPair.live {s : LabelStore Rodeo Spur α} {m : LabelMatcher} {id : ℕ}
    (h : s.PicksPair m id) : ∃ stream, s.streams.lookup id = some stream := by
  obtain ⟨-, -, -, -, stream, hst, -⟩ := h
  exact ⟨stream, hst⟩

omit [LinearOrder Spur] [Timestamped α] in
theorem PicksMatch.live {s : LabelStore Rodeo Spur α} {m : LabelMatcher} {re : String → Bool}
    {id : ℕ} (h : s.PicksMatch m re id) : ∃ stream, s.streams.lookup id = some stream := by
  obtain ⟨-, -, -, ⟨stream, hst, -⟩, -⟩ := h
  exact ⟨stream, hst⟩

theorem Indexed.picksPair_iff {s : LabelStore Rodeo Spur α} (h : s.Indexed) {id : ℕ}
    {stream : Stream Spur α} (hst : s.streams.lookup id = some stream) (m : LabelMatcher) :
    s.PicksPair m id ↔ (m.name, m.value) ∈ s.resolveLabels stream.labels := by
  rw [h.mem_resolveLabels hst]
  constructor
  · rintro ⟨k, hk, v, hv, stream', hst', hp⟩
    obtain rfl : stream' = stream := Option.some.inj (hst'.symm.trans hst)
    exact ⟨(k, v), hp, hk, hv⟩
  · rintro ⟨pair, hp, hk, hv⟩
    exact ⟨pair.1, hk, pair.2, hv, stream, hst, hp⟩

theorem Indexed.picksMatch_iff {s : LabelStore Rodeo Spur α} (h : s.Indexed) {id : ℕ}
    {stream : Stream Spur α} (hst : s.streams.lookup id = some stream) {m : LabelMatcher}
    {re : String → Bool} (hre : compiledLabelRegex regexNew m.value = some re) :
    s.PicksMatch m re id ↔ m.someValueMatches regexNew (s.resolveLabels stream.labels) := by
  rw [LabelMatcher.someValueMatches, hre]
  constructor
  · rintro ⟨nameSpur, hk, vs, ⟨stream', hst', hp⟩, hval⟩
    obtain rfl : stream' = stream := Option.some.inj (hst'.symm.trans hst)
    exact ⟨Interner.resolve s.interner vs, (h.mem_resolveLabels hst).mpr
      ⟨(nameSpur, vs), hp, hk, (h.interned hst _ hp).2.get_resolve⟩, hval⟩
  · rintro ⟨value, hmem, hval⟩
    obtain ⟨pair, hp, hk, hv⟩ := (h.mem_resolveLabels hst).mp hmem
    refine ⟨pair.1, hk, pair.2, ⟨stream, hst, hp⟩, ?_⟩
    rw [Interner.resolve_of_get hv]
    exact hval

/-! One lemma for each kind of matcher: what its posting list holds, in terms of the index. -/

section Matcher

variable {s : LabelStore Rodeo Spur α} (h : s.Indexed) (itValues : IterOrder Spur)
  (allIds : List ℕ) (name value : String) (id : ℕ)
include h

theorem Indexed.mem_matcherIds_eq :
    (∃ pl, matcherIds regexNew itValues s.interner s.labelIndex s.labelValues allIds
        ⟨name, .eq, value⟩ = some pl ∧ id ∈ pl) ↔ s.PicksPair ⟨name, .eq, value⟩ id := by
  rw [matcherIds, PicksPair]
  dsimp only
  cases Interner.get s.interner name with
  | none => simp
  | some k =>
    cases Interner.get s.interner value with
    | none => simp
    | some v =>
      simp only [Option.some.injEq, exists_eq_left']
      exact h.labelIndex.holds_iff (k, v) id

theorem Indexed.mem_matcherIds_neq :
    (∃ pl, matcherIds regexNew itValues s.interner s.labelIndex s.labelValues allIds
        ⟨name, .neq, value⟩ = some pl ∧ id ∈ pl) ↔
      id ∈ allIds ∧ ¬ s.PicksPair ⟨name, .neq, value⟩ id := by
  rw [matcherIds, PicksPair]
  dsimp only
  cases Interner.get s.interner name with
  | none => simp
  | some k =>
    cases Interner.get s.interner value with
    | none => simp
    | some v =>
      simp only [Option.bind_some, Option.some.injEq, exists_eq_left']
      rw [← h.labelIndex.holds_iff (k, v) id, InvertedIndex.Holds]
      cases s.labelIndex.lookup (k, v) with
      | none => simp
      | some pl => simp

theorem Indexed.mem_matcherIds_regex {re : String → Bool}
    (hre : compiledLabelRegex regexNew value = some re) :
    (∃ pl, matcherIds regexNew itValues s.interner s.labelIndex s.labelValues allIds
        ⟨name, .regex, value⟩ = some pl ∧ id ∈ pl) ↔ s.PicksMatch ⟨name, .regex, value⟩ re id := by
  rw [matcherIds, PicksMatch]
  dsimp only
  cases Interner.get s.interner name with
  | none => simp
  | some k =>
    rw [hre]
    simp only [Option.map_some, Option.some.injEq, exists_eq_left']
    exact h.mem_matchingIds itValues k re id

theorem Indexed.mem_matcherIds_notRegex {re : String → Bool}
    (hre : compiledLabelRegex regexNew value = some re) :
    (∃ pl, matcherIds regexNew itValues s.interner s.labelIndex s.labelValues allIds
        ⟨name, .notRegex, value⟩ = some pl ∧ id ∈ pl) ↔
      id ∈ allIds ∧ ¬ s.PicksMatch ⟨name, .notRegex, value⟩ re id := by
  rw [matcherIds, PicksMatch]
  dsimp only
  cases Interner.get s.interner name with
  | none => simp
  | some k =>
    rw [hre]
    simp only [Option.map_some, Option.some.injEq, exists_eq_left', PostingList.mem_difference,
      PostingList.mem_fromIds]
    exact and_congr_right fun _ => not_congr (h.mem_matchingIds itValues k re id)

end Matcher

/-- **One matcher**: its posting list holds the live streams that pass it, and where there is no
list no live stream does. -/
theorem Indexed.mem_matcherIds {s : LabelStore Rodeo Spur α} (h : s.Indexed) (it : IterOrder ℕ)
    (itValues : IterOrder Spur) {m : LabelMatcher} (hm : m.Compiles regexNew) (id : ℕ) :
    (∃ pl, matcherIds regexNew itValues s.interner s.labelIndex s.labelValues (it.keys s.streams)
        m = some pl ∧ id ∈ pl) ↔
      ∃ stream, s.streams.lookup id = some stream ∧
        m.passes regexNew (s.resolveLabels stream.labels) := by
  have hall : id ∈ it.keys s.streams ↔ ∃ stream, s.streams.lookup id = some stream := by
    rw [IterOrder.mem_keys, Finmap.mem_iff]
  obtain ⟨name, op, value⟩ := m
  cases op with
  | eq =>
    rw [h.mem_matcherIds_eq]
    refine ⟨fun hpick => ?_, fun ⟨stream, hst, hpass⟩ => (h.picksPair_iff hst _).mpr hpass⟩
    obtain ⟨stream, hst⟩ := hpick.live
    exact ⟨stream, hst, (h.picksPair_iff hst _).mp hpick⟩
  | neq =>
    rw [h.mem_matcherIds_neq, hall, ← exists_and_right]
    exact exists_congr fun stream => and_congr_right fun hst => not_congr (h.picksPair_iff hst _)
  | regex =>
    obtain ⟨re, hre⟩ := Option.isSome_iff_exists.mp (hm (Or.inl rfl))
    rw [h.mem_matcherIds_regex itValues _ _ _ _ hre]
    refine ⟨fun hpick => ?_, fun ⟨stream, hst, hpass⟩ => (h.picksMatch_iff hst hre).mpr hpass⟩
    obtain ⟨stream, hst⟩ := hpick.live
    exact ⟨stream, hst, (h.picksMatch_iff hst hre).mp hpick⟩
  | notRegex =>
    obtain ⟨re, hre⟩ := Option.isSome_iff_exists.mp (hm (Or.inr rfl))
    rw [h.mem_matcherIds_notRegex itValues _ _ _ _ hre, hall, ← exists_and_right]
    exact exists_congr fun stream => and_congr_right fun hst =>
      not_congr (h.picksMatch_iff hst hre)

/-- What is in the posting list of a matcher passes it, whether its pattern compiles or not. -/
theorem Indexed.passes_of_mem_matcherIds {s : LabelStore Rodeo Spur α} (h : s.Indexed)
    (it : IterOrder ℕ) (itValues : IterOrder Spur) {m : LabelMatcher} {pl : PostingList} {id : ℕ}
    (hpl : matcherIds regexNew itValues s.interner s.labelIndex s.labelValues (it.keys s.streams)
      m = some pl) (hid : id ∈ pl) :
    ∃ stream, s.streams.lookup id = some stream ∧
      m.passes regexNew (s.resolveLabels stream.labels) := by
  by_cases hm : m.Compiles regexNew
  · exact (h.mem_matcherIds it itValues hm id).mp ⟨pl, hpl, hid⟩
  · -- only a negative matcher whose name is not interned has a list then, of all streams
    rw [LabelMatcher.Compiles, Classical.not_imp, Option.not_isSome_iff_eq_none] at hm
    obtain ⟨hop, hnone⟩ := hm
    obtain ⟨name, op, value⟩ := m
    rw [matcherIds] at hpl
    rcases hop with rfl | rfl
    · cases hname : Interner.get s.interner name <;> simp_all
    · cases hname : Interner.get s.interner name with
      | some k => simp_all
      | none =>
        rw [hname] at hpl
        obtain rfl := Option.some.inj hpl
        obtain ⟨stream, hst⟩ := Finmap.mem_iff.mp
          (it.mem_keys.mp (PostingList.mem_fromIds.mp hid))
        refine ⟨stream, hst, ?_⟩
        rintro ⟨value', -, hmatches⟩
        rw [show compiledLabelRegex regexNew value = none from hnone] at hmatches
        exact Bool.noConfusion hmatches

omit [Timestamped α] in
/-- A query selects what every matcher gives a list for and has in it, and everything when there is
no matcher. -/
theorem mem_select_iff_matcherIds (it : IterOrder ℕ) (itValues : IterOrder Spur)
    (s : LabelStore Rodeo Spur α) (matchers : List LabelMatcher) (id : ℕ) :
    id ∈ s.select regexNew it itValues matchers ↔
      if matchers = [] then id ∈ s.streams
      else ∀ m ∈ matchers, ∃ pl, matcherIds regexNew itValues s.interner s.labelIndex s.labelValues
        (it.keys s.streams) m = some pl ∧ id ∈ pl := by
  rw [select, selectIndexedIds]
  by_cases hne : matchers = []
  · subst hne
    simp [IterOrder.mem_keys]
  · rw [if_neg (by simpa using hne), if_neg hne, ← mem_intersect_positiveLists _ hne id]
    split <;> simp [*]

/-- **The indexed query is the plain filter** of the live streams. -/
theorem Indexed.mem_select {s : LabelStore Rodeo Spur α} (h : s.Indexed) (it : IterOrder ℕ)
    (itValues : IterOrder Spur) {matchers : List LabelMatcher}
    (hm : ∀ m ∈ matchers, m.Compiles regexNew) (id : ℕ) :
    id ∈ s.select regexNew it itValues matchers ↔
      ∃ stream, s.streams.lookup id = some stream ∧
        ∀ m ∈ matchers, m.passes regexNew (s.resolveLabels stream.labels) := by
  rw [mem_select_iff_matcherIds]
  split
  · next hnil =>
    subst hnil
    simp [Finmap.mem_iff]
  · next hne =>
    rw [forall₂_congr fun m hmem => h.mem_matcherIds it itValues (hm m hmem) id]
    constructor
    · intro hall
      obtain ⟨m, hmm⟩ := List.exists_mem_of_ne_nil matchers hne
      obtain ⟨stream, hst, -⟩ := hall m hmm
      refine ⟨stream, hst, fun m' hm' => ?_⟩
      obtain ⟨stream', hst', hp⟩ := hall m' hm'
      rwa [Option.some.inj (hst'.symm.trans hst)] at hp
    · rintro ⟨stream, hst, hp⟩ m hmm
      exact ⟨stream, hst, hp m hmm⟩

/-- What is selected passes every matcher, whether the patterns compile or not. -/
theorem Indexed.passes_of_mem_select {s : LabelStore Rodeo Spur α} (h : s.Indexed)
    (it : IterOrder ℕ) (itValues : IterOrder Spur) {matchers : List LabelMatcher} {id : ℕ}
    (hid : id ∈ s.select regexNew it itValues matchers) :
    ∃ stream, s.streams.lookup id = some stream ∧
      ∀ m ∈ matchers, m.passes regexNew (s.resolveLabels stream.labels) := by
  rw [mem_select_iff_matcherIds] at hid
  split at hid
  · next hnil =>
    subst hnil
    simpa [Finmap.mem_iff] using hid
  · next hne =>
    obtain ⟨m, hm⟩ := List.exists_mem_of_ne_nil matchers hne
    obtain ⟨pl, hpl, hmem⟩ := hid m hm
    obtain ⟨stream, hst, -⟩ := h.passes_of_mem_matcherIds it itValues hpl hmem
    refine ⟨stream, hst, fun m hm => ?_⟩
    obtain ⟨pl, hpl, hmem⟩ := hid m hm
    obtain ⟨stream', hst', hpass⟩ := h.passes_of_mem_matcherIds it itValues hpl hmem
    rwa [Option.some.inj (hst'.symm.trans hst)] at hpass

omit [Timestamped α] in
theorem nodup_select (it : IterOrder ℕ) (itValues : IterOrder Spur) (s : LabelStore Rodeo Spur α)
    (matchers : List LabelMatcher) : (s.select regexNew it itValues matchers).Nodup := by
  rw [select, selectIndexedIds]
  split
  · exact it.nodup_keys s.streams
  · split
    · exact List.nodup_nil
    · exact (PostingList.sorted_intersect _).imp ne_of_lt

/-- **The query selects**, whatever the orders the maps are walked in, exactly the live streams
that pass the plain filter of every matcher, each once, and in whatever order the matchers come. -/
def IsFilter (regexNew : String → Option (String → Bool)) (s : LabelStore Rodeo Spur α)
    (query : IterOrder ℕ → IterOrder Spur → List LabelMatcher → List ℕ) : Prop :=
  ∀ it itValues matchers, (∀ m ∈ matchers, m.Compiles regexNew) →
    (query it itValues matchers).Nodup ∧
    (∀ id, id ∈ query it itValues matchers ↔
      ∃ stream, s.streams.lookup id = some stream ∧
        ∀ m ∈ matchers, m.passes regexNew (s.resolveLabels stream.labels)) ∧
    ∀ it' itValues' matchers', matchers'.Perm matchers →
      (query it' itValues' matchers').Perm (query it itValues matchers)

theorem Indexed.isFilter {s : LabelStore Rodeo Spur α} (h : s.Indexed) :
    s.IsFilter regexNew fun it itValues matchers => s.select regexNew it itValues matchers := by
  intro it itValues matchers hm
  refine ⟨nodup_select it itValues s matchers, h.mem_select it itValues hm, ?_⟩
  intro it' itValues' matchers' hperm
  refine (List.perm_ext_iff_of_nodup (nodup_select it' itValues' s matchers')
    (nodup_select it itValues s matchers)).mpr fun id => ?_
  rw [h.mem_select it itValues hm, h.mem_select it' itValues' fun m hm' => hm m (hperm.mem_iff.mp hm')]
  simp only [hperm.mem_iff]

end LabelStore

/-! ### Reachable stores -/

section Reachable

variable {Rodeo Spur F64 : Type} [LinearOrder Spur] [Interner Rodeo Spur]

/-- **Both queries are the plain filter in every store reachable with fewer than `2 ^ 64 - 1` ids
created.** -/
theorem queryStreams_selectSeries_isFilter (regexNew : String → Option (String → Bool))
    (logOps : List (LogOp Spur F64)) (metricOps : List (MetricOp F64))
    (hlog : (LogStore.new : LogStore Rodeo Spur F64).idsCreated logOps < 2 ^ 64 - 1)
    (hmetric : (MetricStore.new : MetricStore Rodeo Spur F64).idsCreated metricOps < 2 ^ 64 - 1) :
    let logs := Run.exec LogStore.apply (LogStore.new : LogStore Rodeo Spur F64) logOps
    let metrics := Run.exec MetricStore.apply (MetricStore.new : MetricStore Rodeo Spur F64)
      metricOps
    (logs.IsFilter regexNew fun it itValues matchers =>
      logs.queryStreams regexNew it itValues matchers) ∧
    metrics.IsFilter regexNew fun it itValues matchers =>
      metrics.selectSeries regexNew it itValues matchers := by
  have hl : (LogStore.new : LogStore Rodeo Spur F64).nextStreamId +
      (LogStore.new : LogStore Rodeo Spur F64).idsCreated logOps ≤ u64Max := by
    show 0 + _ ≤ u64Max
    rw [Nat.zero_add]
    exact hlog.le
  have hr : (MetricStore.new : MetricStore Rodeo Spur F64).nextStreamId +
      (MetricStore.new : MetricStore Rodeo Spur F64).idsCreated metricOps ≤ u64Max := by
    show 0 + _ ≤ u64Max
    rw [Nat.zero_add]
    exact hmetric.le
  exact ⟨(LogStore.invariant_exec LabelStore.invariant_new hl).toIndexed.isFilter,
    (MetricStore.invariant_exec LabelStore.invariant_new hr).toIndexed.isFilter⟩

/-- Two streams and two series, of which a pattern that stands for `a` selects one each. -/
theorem queryStreams_selectSeries_isFilter_pair :
    let regexNew := fun _ => some fun value => value == "a"
    let logs := Run.exec LogStore.apply (LogStore.new : LogStore VecRodeo ℕ ℤ)
      [.ingestStream [("service", "a")] [], .ingestStream [("service", "b")] []]
    let metrics := Run.exec MetricStore.apply (MetricStore.new : MetricStore VecRodeo ℕ ℤ)
      [.ingestSamples "up" [("service", "a")] [], .ingestSamples "up" [("service", "b")] []]
    ((logs.IsFilter regexNew fun it itValues matchers =>
        logs.queryStreams regexNew it itValues matchers) ∧
      metrics.IsFilter regexNew fun it itValues matchers =>
        metrics.selectSeries regexNew it itValues matchers) ∧
    logs.queryStreams regexNew (IterOrder.ascending ℕ) (IterOrder.ascending ℕ)
      [⟨"service", .regex, "a"⟩] = [0] ∧
    metrics.selectSeries regexNew (IterOrder.ascending ℕ) (IterOrder.ascending ℕ)
      [⟨"service", .notRegex, "a"⟩] = [1] :=
  ⟨queryStreams_selectSeries_isFilter _ _ _ (by decide) (by decide), by decide +kernel,
    by decide +kernel⟩

end Reachable

/-! ### When the ids have run out

The next id stops at `u64::MAX`. A stream created there is given an id that the next one created is
given again: its labels are overwritten, and its pairs stay in the index. -/

section Exhaustion

/-- Create a stream and evict it, `n` times over. -/
def rounds (n : ℕ) : List (LogOp ℕ ℤ) :=
  (List.replicate n [LogOp.ingestStream [("a", "x")] [],
    .evictBefore (IterOrder.ascending ℕ) 0]).flatten

/-- Use up `n` ids, and create two streams. -/
def exhausting (n : ℕ) : List (LogOp ℕ ℤ) :=
  rounds n ++ [.ingestStream [("a", "x")] [], .ingestStream [("a", "y")] []]

/-- The store after `n` rounds: empty, with `n` ids used up. -/
structure Spent (s : LogStore VecRodeo ℕ ℤ) (n : ℕ) : Prop where
  invariant : s.Invariant
  empty : s.streams = ∅
  next : s.nextStreamId = n

/-- An empty store creates a stream for any label set. -/
theorem Spent.lookup_streamIds {s : LogStore VecRodeo ℕ ℤ} {n : ℕ} (h : Spent s n)
    (pairs : LabelPairs ℕ) : s.streamIds.lookup pairs = none := by
  cases hid : s.streamIds.lookup pairs with
  | none => rfl
  | some id =>
    obtain ⟨stream, hst, -⟩ := (h.invariant.streamIds pairs id).mp hid
    rw [h.empty] at hst
    exact absurd hst (by simp)

theorem Spent.round {s : LogStore VecRodeo ℕ ℤ} {n : ℕ} (h : Spent s n) (hn : n < u64Max) :
    Spent ((s.ingestStream [("a", "x")] []).evictBefore (IterOrder.ascending ℕ) 0) (n + 1) := by
  have hcreated : s.toLabelStore.created [("a", "x")] = 1 := if_pos (h.lookup_streamIds _)
  have hingest : (s.toLabelStore.ingest [("a", "x")] []).Invariant :=
    h.invariant.ingest (by rw [hcreated, h.next]; omega) []
  have htotal : (s.toLabelStore.ingest [("a", "x")] []).total = 0 ∧
      (s.toLabelStore.ingest [("a", "x")] []).nextStreamId = n + 1 := by
    have hs : s.total = 0 := by rw [h.invariant.total, h.empty]; rfl
    have hnext : u64SaturatingSucc s.nextStreamId = n + 1 := by
      rw [h.next]
      exact min_eq_left hn
    rw [LabelStore.ingest, LabelStore.streamFor, h.lookup_streamIds, LabelStore.extendStream]
    split
    · exact ⟨hs, hnext⟩
    · exact ⟨hs, hnext⟩
  refine ⟨?_, ?_, ?_⟩
  · show (LabelStore.evictBefore _ (s.ingestStream [("a", "x")] []).toLabelStore 0).Invariant
    rw [LogStore.toLabelStore_ingestStream]
    exact hingest.evictBefore _ 0
  · show (LabelStore.evictBefore _ (s.ingestStream [("a", "x")] []).toLabelStore 0).streams = ∅
    rw [LogStore.toLabelStore_ingestStream]
    refine Finmap.ext_lookup fun i => ?_
    rw [LabelStore.lookup_evictBefore, Finmap.lookup_empty]
    cases hst : (s.toLabelStore.ingest [("a", "x")] []).streams.lookup i with
    | none => rfl
    | some stream =>
      have hle := Finmap.le_total (fun st : Stream ℕ (LogEntry ℕ ℤ) => st.entries.length) hst
      rw [← hingest.total, htotal.1] at hle
      have hnil : stream.entries = [] := List.length_eq_zero_iff.mp (Nat.le_zero.mp hle)
      rw [Option.bind_some, hnil]
      rfl
  · show (LabelStore.evictBefore _ (s.ingestStream [("a", "x")] []).toLabelStore 0).nextStreamId = _
    rw [LogStore.toLabelStore_ingestStream, (LabelStore.evictBefore_frame _ _ _).2, htotal.2]

theorem spent_rounds (n : ℕ) (hn : n ≤ u64Max) :
    Spent (Run.exec LogStore.apply (LogStore.new : LogStore VecRodeo ℕ ℤ) (rounds n)) n := by
  induction n with
  | zero => exact ⟨LabelStore.invariant_new, rfl, rfl⟩
  | succ n ih =>
    rw [rounds, List.replicate_succ', List.flatten_append, Run.exec_append]
    exact (ih (by omega)).round hn

/-- With all ids spent, the pair of a stream stays filed under its id when the next stream takes
the id over. -/
theorem Spent.stale {s : LogStore VecRodeo ℕ ℤ} (h : Spent s u64Max) (name x y : String)
    (hxy : x ≠ y) :
    let s' := (s.toLabelStore.ingest [(name, x)] []).ingest [(name, y)] []
    (∃ k v pl, Interner.get s'.interner name = some k ∧ Interner.get s'.interner x = some v ∧
      s'.labelIndex.lookup (k, v) = some pl ∧ u64Max ∈ pl) ∧
    ∃ stream, s'.streams.lookup u64Max = some stream ∧
      s'.resolveLabels stream.labels = [(name, y)] := by
  have hsat : u64SaturatingSucc u64Max = u64Max := min_eq_right (Nat.le_succ _)
  -- the interner on the way
  set a := Interner.getOrIntern s.interner name with ha
  set b := Interner.getOrIntern a.2 x with hb
  set a' := Interner.getOrIntern b.2 name with ha'
  set c := Interner.getOrIntern a'.2 y with hc
  have hgetName : Interner.get b.2 name = some a.1 :=
    Interner.get_getOrIntern_of_get (Interner.get_getOrIntern_self _ _)
  have haa : a'.1 = a.1 := Interner.getOrIntern_of_get hgetName
  have hgetName' : Interner.get c.2 name = some a.1 :=
    Interner.get_getOrIntern_of_get (Interner.get_getOrIntern_of_get hgetName)
  have hgetX : Interner.get c.2 x = some b.1 :=
    Interner.get_getOrIntern_of_get (Interner.get_getOrIntern_of_get
      (Interner.get_getOrIntern_self _ _))
  have hgetY : Interner.get c.2 y = some c.1 := Interner.get_getOrIntern_self _ _
  have hne : [(a'.1, c.1)] ≠ [(a.1, b.1)] := by
    intro heq
    have hcb : c.1 = b.1 := congrArg Prod.snd (List.head_eq_of_cons_eq heq)
    exact hxy (Interner.eq_of_get_eq hgetX (hcb ▸ hgetY))
  have h1 := LabelStore.ingest_of_none (h.lookup_streamIds (internLabelPairs s.interner [(name, x)]).1) []
  have hids : (s.toLabelStore.ingest [(name, x)] []).streamIds.lookup
      (internLabelPairs (s.toLabelStore.ingest [(name, x)] []).interner [(name, y)]).1 = none := by
    rw [h1]
    show (Finmap.insert [(a.1, b.1)] s.nextStreamId s.streamIds).lookup [(a'.1, c.1)] = none
    rw [Finmap.lookup_insert_of_ne _ hne]
    exact h.lookup_streamIds _
  have h2 := LabelStore.ingest_of_none hids []
  dsimp only
  rw [h2, h1]
  constructor
  · have hholds : InvertedIndex.Holds (InvertedIndex.add
        (InvertedIndex.add s.labelIndex (a.1, b.1) s.nextStreamId) (a'.1, c.1)
        (u64SaturatingSucc s.nextStreamId)) (a.1, b.1) u64Max :=
      InvertedIndex.holds_add.mpr (Or.inr (InvertedIndex.holds_add.mpr (Or.inl ⟨rfl, h.next.symm⟩)))
    obtain ⟨pl, hpl, hmem⟩ := hholds
    exact ⟨a.1, b.1, pl, hgetName', hgetX, hpl, hmem⟩
  · refine ⟨⟨[(a'.1, c.1)], []⟩, ?_, resolve_internPairs b.2 [(name, y)]⟩
    show (Finmap.insert (u64SaturatingSucc s.nextStreamId) _ _).lookup u64Max = _
    rw [h.next, hsat]
    exact Finmap.lookup_insert _

theorem not_isFilter_exhausting {n : ℕ} (hn : n = u64Max) :
    let logs := Run.exec LogStore.apply (LogStore.new : LogStore VecRodeo ℕ ℤ) (exhausting n)
    ¬ logs.IsFilter (fun _ => none) fun it itValues matchers =>
      logs.queryStreams (fun _ => none) it itValues matchers := by
  intro logs hfilter
  have hspent := spent_rounds n hn.le
  generalize hs : Run.exec LogStore.apply (LogStore.new : LogStore VecRodeo ℕ ℤ) (rounds n) = s
    at hspent
  have hlogs : logs.toLabelStore =
      (s.toLabelStore.ingest [("a", "x")] []).ingest [("a", "y")] [] := by
    rw [← LogStore.toLabelStore_ingestStream, ← LogStore.toLabelStore_ingestStream, ← hs]
    show LogStore.toLabelStore (Run.exec _ _ (exhausting n)) = _
    rw [exhausting, Run.exec_append]
    rfl
  obtain ⟨⟨k, v, pl, hk, hv, hpl, hmem⟩, stream, hst, hlabels⟩ :=
    (hn ▸ hspent).stale "a" "x" "y" (by decide)
  rw [← hlogs] at hk hv hpl hst hlabels
  obtain ⟨-, hiff, -⟩ := hfilter (IterOrder.ascending ℕ) (IterOrder.ascending ℕ)
    [⟨"a", .eq, "x"⟩] (by simp [LabelMatcher.Compiles])
  have hsel : u64Max ∈ logs.queryStreams (fun _ => none) (IterOrder.ascending ℕ)
      (IterOrder.ascending ℕ) [⟨"a", .eq, "x"⟩] := by
    rw [LogStore.queryStreams, LabelStore.select, selectIndexedIds]
    simp only [List.isEmpty_cons, Bool.false_eq_true, if_false, positiveLists, matcherIds, hk, hv,
      hpl, Option.map_some, PostingList.intersect]
    exact hmem
  obtain ⟨stream', hst', hpass⟩ := (hiff u64Max).mp hsel
  obtain rfl : stream' = stream := Option.some.inj (hst'.symm.trans hst)
  have hmem' : ("a", "x") ∈ logs.resolveLabels stream'.labels := hpass _ List.mem_cons_self
  rw [hlabels] at hmem'
  exact absurd hmem' (by decide)

/-- **A store that has run out of ids answers wrongly**: `a = "x"` selects a stream whose only
label is `a = "y"`. -/
theorem queryStreams_after_exhaustion :
    let logs := Run.exec LogStore.apply (LogStore.new : LogStore VecRodeo ℕ ℤ)
      (exhausting (2 ^ 64 - 1))
    ¬ logs.IsFilter (fun _ => none) fun it itValues matchers =>
      logs.queryStreams (fun _ => none) it itValues matchers :=
  not_isFilter_exhausting rfl

end Exhaustion

end Aniani
