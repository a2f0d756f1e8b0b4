import Aniani.Query.PromQL.GroupRight
import Aniani.Query.PromQL.SortedLabels
import Aniani.Query.PromQL.TopOperators

/-!
# The order of labels

A match key or a group key is a list of labels in the order the series has them, and keys are
compared as lists. The store gives labels in the order of the interner's keys, `label_replace`,
`label_join` and the grouped joins in the order of the names. So two series with one label set can
have two keys. A vector with its labels sorted has no such pair.

## Main definitions

* `SameSets` — outcomes with one result, up to the order of the series and of their labels
* `VectorOperation`, `VectorOperation.canonical` — joins and aggregations, and with sorted labels
* `VectorOperation.OrderFree` — the condition

## Main results

* `matchJoin_canonical_iff`, `groupSeries_canonical_iff` — joins and groups
* `VectorOperation.sameSets_iff` — **when the order of labels does not matter**
-/

namespace Aniani

namespace PromQL

variable {F64 : Type}

/-! ### Results -/

@[simp] theorem canonical_labels (sr : SeriesResult F64) :
    sr.canonical.labels = canonicalLabels sr.labels := rfl

@[simp] theorem canonical_samples (sr : SeriesResult F64) : sr.canonical.samples = sr.samples := rfl

/-- Outcomes with one result, up to the order of the series and of their labels, or two errors: the
text of an error lists labels too. -/
def SameSets : Outcome F64 → Outcome F64 → Prop
  | .ok (.instantVector series), .ok (.instantVector series') =>
    (series.map SeriesResult.canonical).Perm (series'.map SeriesResult.canonical)
  | .error _, .error _ => True
  | outcome, outcome' => outcome = outcome'

/-- The first series has the samples of the second, and labels below its labels. -/
def SeriesLe (sr sr' : SeriesResult F64) : Prop :=
  sr.samples = sr'.samples ∧ LabelsLe sr.labels sr'.labels

theorem SeriesLe.refl (sr : SeriesResult F64) : SeriesLe sr sr :=
  ⟨rfl, .of_perm (List.Perm.refl _)⟩

theorem SeriesLe.trans {sr sr' sr'' : SeriesResult F64} (h : SeriesLe sr sr')
    (h' : SeriesLe sr' sr'') : SeriesLe sr sr'' :=
  ⟨h.1.trans h'.1, h.2.trans h'.2⟩

/-! ### Joins -/

/-- Labels matched on are the same in the two series. -/
def SameKey (mode : MatchMode) (sr sr' : SeriesResult F64) : Prop :=
  (mode.matchKey sr.labels).Perm (mode.matchKey sr'.labels)

instance (mode : MatchMode) (sr sr' : SeriesResult F64) : Decidable (SameKey mode sr sr') :=
  inferInstanceAs (Decidable (List.Perm _ _))

theorem matchKey_canonical_iff {mode : MatchMode} {sr sr' : SeriesResult F64} :
    mode.matchKey sr.canonical.labels = mode.matchKey sr'.canonical.labels ↔
      SameKey mode sr sr' := by
  rw [canonical_labels, canonical_labels, matchKey_canonicalLabels, matchKey_canonicalLabels,
    canonicalLabels_eq_iff]
  rfl

/-- The labels of the result of a join. -/
def JoinMode.resultLabels (join : JoinMode) (lhs rhs : SeriesLabelSet) : SeriesLabelSet :=
  match join with
  | .plain => labelsWithoutMetricName lhs
  | .groupLeft carry => carryLabels carry rhs lhs
  | .groupRight carry => carryLabels carry lhs rhs

theorem resultLabels_labelsLe (join : JoinMode) (lhs rhs : SeriesLabelSet) :
    LabelsLe (join.resultLabels lhs rhs)
      (join.resultLabels (canonicalLabels lhs) (canonicalLabels rhs)) := by
  cases join with
  | plain =>
    refine .of_perm ?_
    rw [JoinMode.resultLabels, JoinMode.resultLabels, labelsWithoutMetricName_canonicalLabels]
    exact (canonicalLabels_perm _).symm
  | groupLeft carry => exact carryLabels_labelsLe carry rhs lhs
  | groupRight carry => exact carryLabels_labelsLe carry lhs rhs

section Joins

variable [FloatOps F64] (op : BinaryOp) (returnBool : Bool) (mode : MatchMode) (join : JoinMode)

/-- Two series have a sample together that the operator keeps. -/
def HaveSample (ls rs : SeriesResult F64) : Prop :=
  ∃ s ∈ ls.samples, ∃ rv, sampleLookup rs.samples s.1 = some rv ∧
    (comparisonSample op s.1 s.2 (applyBinaryOp op s.2 rv) returnBool).isSome

/-- The result of a join for two series. -/
def joinSeries (ls rs : SeriesResult F64) : Option (SeriesResult F64) :=
  seriesOf (join.resultLabels ls.labels rs.labels)
    (joinSamples op returnBool ls.samples rs.samples)

/-- The results of a join, one for each match. -/
def matchJoin (lhs rhs : List (SeriesResult F64)) : List (SeriesResult F64) :=
  lhs.pairJoin rhs fun ls rs =>
    if mode.matchKey rs.labels == mode.matchKey ls.labels then joinSeries op returnBool join ls rs
    else none

/-- Where two series with the same labels matched on have a result, these labels come in one order
in both, and the order of the labels makes no difference to those of the result. -/
def JoinOrderFree (lhs rhs : List (SeriesResult F64)) : Prop :=
  ∀ ls ∈ lhs, ∀ rs ∈ rhs, SameKey mode rs ls → HaveSample op returnBool ls rs →
    mode.matchKey rs.labels = mode.matchKey ls.labels ∧
      (join.resultLabels ls.labels rs.labels).Perm
        (join.resultLabels (canonicalLabels ls.labels) (canonicalLabels rs.labels))

variable {op returnBool mode join}

theorem exists_mem_joinSamples_iff {ls rs : SeriesResult F64} :
    (∃ s, s ∈ joinSamples op returnBool ls.samples rs.samples) ↔
      HaveSample op returnBool ls rs := by
  constructor
  · rintro ⟨s', hs'⟩
    obtain ⟨s, hs, hbind⟩ := List.mem_filterMap.mp hs'
    obtain ⟨rv, hrv, hsample⟩ := Option.bind_eq_some_iff.mp hbind
    exact ⟨s, hs, rv, hrv, by rw [hsample]; rfl⟩
  · rintro ⟨s, hs, rv, hrv, hsome⟩
    obtain ⟨s', hsample⟩ := Option.isSome_iff_exists.mp hsome
    exact ⟨s', List.mem_filterMap.mpr ⟨s, hs, by rw [hrv]; exact hsample⟩⟩

theorem joinSeries_eq_some_iff {ls rs sr : SeriesResult F64} :
    joinSeries op returnBool join ls rs = some sr ↔ HaveSample op returnBool ls rs ∧
      sr = ⟨join.resultLabels ls.labels rs.labels,
        joinSamples op returnBool ls.samples rs.samples⟩ := by
  rw [← exists_mem_joinSamples_iff, joinSeries]
  cases joinSamples op returnBool ls.samples rs.samples with
  | nil => simp [seriesOf]
  | cons s samples =>
    rw [and_iff_right ⟨s, List.mem_cons_self⟩]
    exact Option.some_inj.trans eq_comm

/-- A result of a join, with its labels sorted. -/
theorem matched_eq_some_iff {ls rs sr : SeriesResult F64} :
    (if mode.matchKey rs.labels == mode.matchKey ls.labels then joinSeries op returnBool join ls rs
        else none).map SeriesResult.canonical = some sr ↔
      mode.matchKey rs.labels = mode.matchKey ls.labels ∧ HaveSample op returnBool ls rs ∧
        sr = ⟨canonicalLabels (join.resultLabels ls.labels rs.labels),
          joinSamples op returnBool ls.samples rs.samples⟩ := by
  by_cases h : mode.matchKey rs.labels = mode.matchKey ls.labels
  · rw [if_pos (beq_iff_eq.mpr h), and_iff_right h, Option.map_eq_some_iff]
    constructor
    · rintro ⟨sr', hsr', rfl⟩
      obtain ⟨hsample, rfl⟩ := joinSeries_eq_some_iff.mp hsr'
      exact ⟨hsample, rfl⟩
    · rintro ⟨hsample, rfl⟩
      exact ⟨_, joinSeries_eq_some_iff.mpr ⟨hsample, rfl⟩, rfl⟩
  · rw [if_neg (mt beq_iff_eq.mp h)]
    exact iff_of_false (by simp) fun hsome => h hsome.1

variable (op returnBool mode join) in
/-- **A join and the join with sorted labels** have the same results when the order of the labels
makes no difference wherever there is a result, and only then. -/
theorem matchJoin_canonical_iff (lhs rhs : List (SeriesResult F64)) :
    ((matchJoin op returnBool mode join lhs rhs).map SeriesResult.canonical).Perm
        ((matchJoin op returnBool mode join (lhs.map SeriesResult.canonical)
          (rhs.map SeriesResult.canonical)).map SeriesResult.canonical) ↔
      JoinOrderFree op returnBool mode join lhs rhs := by
  have hle (ls rs : SeriesResult F64) : LabelsLe
      (canonicalLabels (join.resultLabels ls.labels rs.labels))
      (canonicalLabels (join.resultLabels ls.canonical.labels rs.canonical.labels)) :=
    (LabelsLe.of_perm (canonicalLabels_perm _)).trans
      ((resultLabels_labelsLe join ls.labels rs.labels).trans
        (.of_perm (canonicalLabels_perm _).symm))
  rw [matchJoin, matchJoin, List.pairJoin_map, List.map_pairJoin, List.map_pairJoin]
  constructor
  · intro hperm ls hls rs hrs hsame hsample
    have hall := List.pairJoin_perm_of_le SeriesLe.refl SeriesLe.trans
      (fun ls _ rs _ sr hsr => by
        obtain ⟨hkey, hsample, rfl⟩ := matched_eq_some_iff.mp hsr
        exact ⟨_, matched_eq_some_iff.mpr ⟨matchKey_canonical_iff.mpr (List.Perm.of_eq hkey),
          hsample, rfl⟩, rfl, hle ls rs⟩) hperm
    obtain ⟨sr, hsr, hback⟩ := hall ls hls rs hrs _
      (matched_eq_some_iff.mpr ⟨matchKey_canonical_iff.mpr hsame, hsample, rfl⟩)
    obtain ⟨hkey, _, rfl⟩ := matched_eq_some_iff.mp hsr
    refine ⟨hkey, (canonicalLabels_perm _).symm.trans (List.Perm.trans ?_ (canonicalLabels_perm _))⟩
    exact (hle ls rs).perm hback.2
  · intro hfree
    refine List.Perm.of_eq (List.flatMap_congr fun ls hls => List.filterMap_congr fun rs hrs => ?_)
    refine Option.ext fun sr => ?_
    rw [matched_eq_some_iff, matched_eq_some_iff, matchKey_canonical_iff]
    constructor
    · rintro ⟨hkey, hsample, rfl⟩
      have hsame : SameKey mode rs ls := List.Perm.of_eq hkey
      refine ⟨hsame, hsample, ?_⟩
      rw [canonicalLabels_eq_iff.mpr (hfree ls hls rs hrs hsame hsample).2]
      rfl
    · rintro ⟨hsame, hsample, rfl⟩
      obtain ⟨hkey, hlabels⟩ := hfree ls hls rs hrs hsame hsample
      refine ⟨hkey, hsample, ?_⟩
      rw [canonicalLabels_eq_iff.mpr hlabels]
      rfl

/-! ### The code's joins -/

theorem evalPlain_eq (lhs rhs : List (SeriesResult F64)) :
    evalPlain op returnBool mode lhs rhs = matchJoin op returnBool mode .plain lhs rhs :=
  List.pairJoin_filter lhs rhs
    (fun ls rs => mode.matchKey rs.labels == mode.matchKey ls.labels) _

/-- The condition on a join: for `group_left`, some series has several matches in its own order, so
that the join fails either way, or none has several in any order. -/
def JoinMode.OrderFree (op : BinaryOp) (returnBool : Bool) (mode : MatchMode)
    (lhs rhs : List (SeriesResult F64)) (join : JoinMode) : Prop :=
  match join with
  | .plain => JoinOrderFree op returnBool mode .plain lhs rhs
  | .groupRight carry => JoinOrderFree op returnBool mode (.groupRight carry) lhs rhs
  | .groupLeft carry =>
    (∃ ls ∈ lhs, 1 < (rhsMatches mode rhs (mode.matchKey ls.labels)).length) ∨
      (∀ ls ∈ lhs, (rhs.filter fun rs => SameKey mode rs ls).length ≤ 1) ∧
        JoinOrderFree op returnBool mode (.groupLeft carry) lhs rhs

omit [FloatOps F64] in
theorem length_withKey_canonical (rhs : List (SeriesResult F64)) (ls : SeriesResult F64) :
    (withKey mode.matchKey (rhs.map SeriesResult.canonical)
        (mode.matchKey ls.canonical.labels)).length =
      (rhs.filter fun rs => SameKey mode rs ls).length := by
  rw [withKey, List.filter_map, List.length_map]
  refine congrArg List.length (List.filter_congr fun rs _ => ?_)
  rw [Bool.eq_iff_iff, decide_eq_true_eq]
  exact beq_iff_eq.trans matchKey_canonical_iff

theorem evalGroupLeft_canonical_iff (debugStr : String → String) (carry : List String)
    (lhs rhs : List (SeriesResult F64)) :
    SameSets ((evalGroupLeft op returnBool mode debugStr carry rhs lhs).map .instantVector)
        ((evalGroupLeft op returnBool mode debugStr carry (rhs.map SeriesResult.canonical)
          (lhs.map SeriesResult.canonical)).map .instantVector) ↔
      (JoinMode.groupLeft carry).OrderFree op returnBool mode lhs rhs := by
  have hle (ls : SeriesResult F64) : (withKey mode.matchKey rhs (mode.matchKey ls.labels)).length ≤
      (rhs.filter fun rs => SameKey mode rs ls).length :=
    (List.monotone_filter_right rhs fun rs h =>
      decide_eq_true (List.Perm.of_eq (beq_iff_eq.mp h))).length_le
  rw [evalGroupLeft_eq, evalGroupLeft_eq]
  by_cases hraw : ∃ ls ∈ lhs, 1 < (withKey mode.matchKey rhs (mode.matchKey ls.labels)).length
  · refine iff_of_true ?_ (.inl hraw)
    obtain ⟨ls, hls, hlt⟩ := hraw
    obtain ⟨e, he⟩ := joinManyToOne_of_lt ⟨ls, hls, hlt⟩
    obtain ⟨e', he'⟩ := joinManyToOne_of_lt ⟨ls.canonical, List.mem_map_of_mem hls,
      lt_of_lt_of_eq (lt_of_lt_of_le hlt (hle ls)) (length_withKey_canonical rhs ls).symm⟩
    rw [he, he']
    exact trivial
  refine Iff.trans ?_ (or_iff_right hraw).symm
  push Not at hraw
  rw [joinManyToOne_of_le hraw]
  by_cases hsame : ∀ ls ∈ lhs, (rhs.filter fun rs => SameKey mode rs ls).length ≤ 1
  · have hcanonical : ∀ ls ∈ lhs.map SeriesResult.canonical, (withKey mode.matchKey
        (rhs.map SeriesResult.canonical) (mode.matchKey ls.labels)).length ≤ 1 := by
      intro ls' hls'
      obtain ⟨ls, hls, rfl⟩ := List.mem_map.mp hls'
      rw [length_withKey_canonical]
      exact hsame ls hls
    rw [joinManyToOne_of_le hcanonical, and_iff_right hsame]
    exact matchJoin_canonical_iff op returnBool mode (.groupLeft carry) lhs rhs
  · refine iff_of_false ?_ fun h => hsame h.1
    push Not at hsame
    obtain ⟨ls, hls, hlt⟩ := hsame
    obtain ⟨e, he⟩ := joinManyToOne_of_lt ⟨ls.canonical, List.mem_map_of_mem hls,
      lt_of_lt_of_eq hlt (length_withKey_canonical rhs ls).symm⟩
    rw [he]
    exact fun h => absurd (show (Except.ok _ : Outcome F64) = .error e from h) (by simp)

variable (op returnBool mode join) in
/-- A join, with the labels as they are and sorted. -/
theorem evalVectorVector_canonical_iff (debugStr : String → String)
    (lhs rhs : List (SeriesResult F64)) :
    SameSets
        ((evalVectorVector op returnBool mode debugStr join lhs rhs).map .instantVector)
        ((evalVectorVector op returnBool mode debugStr join (lhs.map SeriesResult.canonical)
          (rhs.map SeriesResult.canonical)).map .instantVector) ↔
      join.OrderFree op returnBool mode lhs rhs := by
  cases join with
  | plain =>
    rw [evalVectorVector, evalVectorVector, evalPlain_eq, evalPlain_eq]
    exact matchJoin_canonical_iff op returnBool mode .plain lhs rhs
  | groupLeft carry => exact evalGroupLeft_canonical_iff debugStr carry lhs rhs
  | groupRight carry =>
    rw [evalVectorVector, evalVectorVector, evalGroupRight_eq, evalGroupRight_eq]
    exact matchJoin_canonical_iff op returnBool mode (.groupRight carry) lhs rhs

/-- With each name once the labels of the results are the same in any order. -/
theorem JoinOrderFree.of_nodup {lhs rhs : List (SeriesResult F64)}
    (hl : ∀ ls ∈ lhs, (ls.labels.map Prod.fst).Nodup)
    (hr : ∀ rs ∈ rhs, (rs.labels.map Prod.fst).Nodup)
    (hkeys : ∀ ls ∈ lhs, ∀ rs ∈ rhs, SameKey mode rs ls → HaveSample op returnBool ls rs →
      mode.matchKey rs.labels = mode.matchKey ls.labels) :
    JoinOrderFree op returnBool mode join lhs rhs := by
  intro ls hls rs hrs hsame hsample
  refine ⟨hkeys ls hls rs hrs hsame hsample, ?_⟩
  cases join with
  | plain =>
    rw [JoinMode.resultLabels, JoinMode.resultLabels, labelsWithoutMetricName_canonicalLabels]
    exact (canonicalLabels_perm _).symm
  | groupLeft carry => exact carryLabels_perm_of_nodup (hr rs hrs) (hl ls hls)
  | groupRight carry => exact carryLabels_perm_of_nodup (hl ls hls) (hr rs hrs)

end Joins

/-! ### Set operators -/

/-- What has a partner with the same labels matched on has one that lists them in its order. -/
def FindOrderFree (mode : MatchMode) (series others : List (SeriesResult F64)) : Prop :=
  ∀ sr ∈ series, (∃ o ∈ others, SameKey mode o sr) →
    ∃ o ∈ others, mode.matchKey o.labels = mode.matchKey sr.labels

theorem hasKey_canonical_iff {mode : MatchMode} {others : List (SeriesResult F64)}
    {sr : SeriesResult F64} :
    hasKey mode (others.map SeriesResult.canonical) (mode.matchKey sr.canonical.labels) = true ↔
      ∃ o ∈ others, SameKey mode o sr := by
  rw [hasKey_iff]
  constructor
  · rintro ⟨o', ho', heq⟩
    obtain ⟨o, ho, rfl⟩ := List.mem_map.mp ho'
    exact ⟨o, ho, matchKey_canonical_iff.mp heq⟩
  · rintro ⟨o, ho, hsame⟩
    exact ⟨o.canonical, List.mem_map_of_mem ho, matchKey_canonical_iff.mpr hsame⟩

/-- A series as a set operator reports it, with its labels sorted. -/
theorem canonical_unnamed_canonical (sr : SeriesResult F64) :
    sr.canonical.unnamed.canonical = sr.unnamed.canonical := by
  show (⟨canonicalLabels (labelsWithoutMetricName (canonicalLabels sr.labels)), sr.samples⟩ :
    SeriesResult F64) = ⟨canonicalLabels (labelsWithoutMetricName sr.labels), sr.samples⟩
  rw [labelsWithoutMetricName_canonicalLabels, canonicalLabels_canonicalLabels]

/-- The part that a set operator keeps of the series with sorted labels. -/
theorem map_unnamed_filter_canonical (p : SeriesResult F64 → Bool)
    (series : List (SeriesResult F64)) :
    (((series.map SeriesResult.canonical).filter p).map SeriesResult.unnamed).map
        SeriesResult.canonical =
      (series.filter (p ∘ SeriesResult.canonical)).map fun sr => sr.unnamed.canonical := by
  rw [List.filter_map, List.map_map, List.map_map]
  exact List.map_congr_left fun sr _ => canonical_unnamed_canonical sr

section SetOperators

variable (mode : MatchMode) (series others : List (SeriesResult F64))

/-- **What has a partner**, as found with sorted labels. -/
theorem withPartner_canonical_iff :
    (((series.filter fun sr => hasKey mode others (mode.matchKey sr.labels)).map
          SeriesResult.unnamed).map SeriesResult.canonical).Perm
        ((((series.map SeriesResult.canonical).filter fun sr =>
          hasKey mode (others.map SeriesResult.canonical) (mode.matchKey sr.labels)).map
            SeriesResult.unnamed).map SeriesResult.canonical) ↔
      FindOrderFree mode series others := by
  rw [map_unnamed_filter_canonical, List.map_map, List.perm_comm]
  refine (map_filter_perm_iff fun sr h => ?_).trans ?_
  · obtain ⟨o, ho, heq⟩ := hasKey_iff.mp h
    exact hasKey_canonical_iff.mpr ⟨o, ho, List.Perm.of_eq heq⟩
  · refine forall₂_congr fun sr _ => ?_
    exact imp_congr hasKey_canonical_iff hasKey_iff

/-- **What has no partner**, as found with sorted labels. -/
theorem withoutPartner_canonical_iff :
    (((series.filter fun sr => !hasKey mode others (mode.matchKey sr.labels)).map
          SeriesResult.unnamed).map SeriesResult.canonical).Perm
        ((((series.map SeriesResult.canonical).filter fun sr =>
          !hasKey mode (others.map SeriesResult.canonical) (mode.matchKey sr.labels)).map
            SeriesResult.unnamed).map SeriesResult.canonical) ↔
      FindOrderFree mode series others := by
  have hnot {b c : Bool} : (!b) = true → (!c) = true ↔ (c = true → b = true) := by
    cases b <;> cases c <;> simp
  rw [map_unnamed_filter_canonical, List.map_map]
  refine (map_filter_perm_iff fun sr => ?_).trans ?_
  · refine hnot.mpr fun h => ?_
    obtain ⟨o, ho, heq⟩ := hasKey_iff.mp h
    exact hasKey_canonical_iff.mpr ⟨o, ho, List.Perm.of_eq heq⟩
  · refine forall₂_congr fun sr _ => hnot.trans ?_
    exact imp_congr hasKey_canonical_iff hasKey_iff

end SetOperators

/-! ### Groups -/

/-- The labels grouped by come in one order. -/
def GroupOrderFree (modifier : Option LabelModifier) (series : List (SeriesResult F64)) : Prop :=
  ∀ sr ∈ series, ∀ sr' ∈ series,
    (computeGroupLabels modifier sr.labels).Perm (computeGroupLabels modifier sr'.labels) →
      computeGroupLabels modifier sr.labels = computeGroupLabels modifier sr'.labels

theorem groupSeries_canonical (modifier : Option LabelModifier) (series : List (SeriesResult F64)) :
    groupSeries modifier (series.map SeriesResult.canonical) =
      (series.sortedGroups labelsOrder
        (canonicalLabels ∘ fun sr => computeGroupLabels modifier sr.labels)).map
          fun group => (group.1, group.2.map SeriesResult.canonical) := by
  have hkey : (fun sr : SeriesResult F64 => computeGroupLabels modifier sr.labels) ∘
      SeriesResult.canonical =
        canonicalLabels ∘ fun sr => computeGroupLabels modifier sr.labels := by
    funext sr
    exact computeGroupLabels_canonicalLabels modifier sr.labels
  rw [groupSeries, groupBy, List.sortedGroups_map, hkey]

/-- **Groups and their values**, with the labels as they are and sorted. -/
theorem groupSeries_canonical_iff {modifier : Option LabelModifier}
    {series : List (SeriesResult F64)} {value : List (SeriesResult F64) → List (ℤ × F64)}
    (hvalue : ∀ group, value (group.map SeriesResult.canonical) = value group) :
    (((groupSeries modifier series).map fun group =>
          (⟨group.1, value group.2⟩ : SeriesResult F64)).map SeriesResult.canonical).Perm
        (((groupSeries modifier (series.map SeriesResult.canonical)).map fun group =>
          (⟨group.1, value group.2⟩ : SeriesResult F64)).map SeriesResult.canonical) ↔
      GroupOrderFree modifier series := by
  have hright : ((groupSeries modifier (series.map SeriesResult.canonical)).map fun group =>
      (⟨group.1, value group.2⟩ : SeriesResult F64)).map SeriesResult.canonical =
        (series.sortedGroups labelsOrder
          (canonicalLabels ∘ fun sr => computeGroupLabels modifier sr.labels)).map
            fun group => ⟨canonicalLabels group.1, value group.2⟩ := by
    rw [groupSeries_canonical, List.map_map, List.map_map]
    refine List.map_congr_left fun group _ => ?_
    show (⟨canonicalLabels group.1, value (group.2.map SeriesResult.canonical)⟩ :
      SeriesResult F64) = _
    rw [hvalue]
  rw [hright, List.map_map]
  refine (List.map_sortedGroups_perm_iff fun k group => ?_).trans ?_
  · show (⟨canonicalLabels (canonicalLabels k), value group⟩ : SeriesResult F64) =
      ⟨canonicalLabels k, value group⟩
    rw [canonicalLabels_canonicalLabels]
  · refine forall₂_congr fun sr _ => forall₂_congr fun sr' _ => ?_
    exact imp_congr_left canonicalLabels_eq_iff

/-! ### Values of a group -/

theorem groupSamples_canonical (f : List F64 → F64) (series : List (SeriesResult F64)) :
    groupSamples f (series.map SeriesResult.canonical) = groupSamples f series := by
  have htimes : sampleTimes (series.map SeriesResult.canonical) = sampleTimes series := by
    rw [sampleTimes, List.flatMap_map]
    rfl
  have hvalues (t : ℤ) : valuesAt (series.map SeriesResult.canonical) t = valuesAt series t := by
    rw [valuesAt, List.filterMap_map]
    rfl
  rw [groupSamples, groupSamples, htimes]
  simp only [hvalues]

/-- A series has samples. -/
def SeriesResult.hasSamples (sr : SeriesResult F64) : Bool := !sr.samples.isEmpty

theorem samples_eq_nil {sr : SeriesResult F64} (h : ¬ sr.hasSamples = true) : sr.samples = [] := by
  simpa [SeriesResult.hasSamples] using h

/-- A series without samples adds nothing to the values of its group. -/
theorem groupSamples_filter_hasSamples (f : List F64 → F64) (series : List (SeriesResult F64)) :
    groupSamples f (series.filter SeriesResult.hasSamples) = groupSamples f series := by
  have htimes : sampleTimes (series.filter SeriesResult.hasSamples) = sampleTimes series := by
    rw [sampleTimes, sampleTimes]
    congr 2
    induction series with
    | nil => rfl
    | cons sr series ih =>
      by_cases h : sr.hasSamples = true
      · rw [List.filter_cons_of_pos h, List.flatMap_cons, List.flatMap_cons, ih]
      · rw [List.filter_cons_of_neg h, List.flatMap_cons, ih, samples_eq_nil h]
        rfl
  have hvalues (t : ℤ) :
      valuesAt (series.filter SeriesResult.hasSamples) t = valuesAt series t := by
    rw [valuesAt, List.filterMap_filter]
    refine List.filterMap_congr fun sr _ => ?_
    by_cases h : sr.hasSamples = true
    · exact if_pos h
    · rw [if_neg h, samples_eq_nil h]
      rfl
  rw [groupSamples, groupSamples, htimes]
  simp only [hvalues]

/-- A group of series with samples has values. -/
theorem groupSamples_ne_nil (f : List F64 → F64) {series : List (SeriesResult F64)}
    {sr : SeriesResult F64} (hsr : sr ∈ series) (h : sr.hasSamples = true) :
    groupSamples f series ≠ [] := by
  obtain ⟨s, hs⟩ : ∃ s, s ∈ sr.samples := by
    refine List.exists_mem_of_ne_nil _ fun hnil => ?_
    rw [SeriesResult.hasSamples, hnil] at h
    exact absurd h (by simp)
  have htime : s.1 ∈ sampleTimes series := by
    rw [sampleTimes, List.mem_sortByKey, List.mem_dedup, List.mem_flatMap]
    exact ⟨sr, hsr, List.mem_map_of_mem hs⟩
  obtain ⟨v, hv⟩ : ∃ v, sampleLookup sr.samples s.1 = some v := by
    have hfind : (sr.samples.reverse.find? fun s' => s'.1 == s.1).isSome :=
      List.find?_isSome.mpr ⟨s, List.mem_reverse.mpr hs, beq_self_eq_true s.1⟩
    obtain ⟨s', hs'⟩ := Option.isSome_iff_exists.mp hfind
    exact ⟨s'.2, by rw [sampleLookup, hs']; rfl⟩
  have hvalues : valuesAt series s.1 ≠ [] :=
    List.ne_nil_of_mem (List.mem_filterMap.mpr ⟨sr, hsr, hv⟩)
  refine List.ne_nil_of_mem (a := (s.1, f (valuesAt series s.1))) ?_
  refine List.mem_filterMap.mpr ⟨s.1, htime, ?_⟩
  show (if (valuesAt series s.1).isEmpty then none else _) = _
  rw [if_neg (by simpa using hvalues)]

/-- **The quantiles of a vector** are those of its series with samples, one for each group. -/
theorem quantileSeries_eq [FloatOps F64] {q : F64} (hq : inUnitInterval q = true)
    (modifier : Option LabelModifier) (series : List (SeriesResult F64)) :
    ((groupSeries modifier series).filterMap fun group =>
        seriesOf group.1 (quantileGroup q group.2)) =
      (groupSeries modifier (series.filter SeriesResult.hasSamples)).map fun group =>
        ⟨group.1, groupSamples (fun values => interpolateQuantile (FloatOps.sorted values) q)
          group.2⟩ := by
  have hquantile (group : List (SeriesResult F64)) : quantileGroup q group =
      groupSamples (fun values => interpolateQuantile (FloatOps.sorted values) q) group := by
    rw [quantileGroup, hq]
    cases group with
    | nil => rfl
    | cons sr group => rfl
  have hgroups : groupSeries modifier (series.filter SeriesResult.hasSamples) =
      ((groupSeries modifier series).map fun group =>
        (group.1, group.2.filter SeriesResult.hasSamples)).filter fun group =>
          !group.2.isEmpty := List.sortedGroups_filter labelsOrder_injective _
  rw [hgroups, List.filter_map, List.map_map, ← List.filterMap_eq_map, List.filterMap_filter]
  refine List.filterMap_congr fun group _ => ?_
  rw [hquantile, ← groupSamples_filter_hasSamples]
  show seriesOf group.1 (groupSamples _ (group.2.filter SeriesResult.hasSamples)) =
    if (!(group.2.filter SeriesResult.hasSamples).isEmpty) = true then
      some ⟨group.1, groupSamples _ (group.2.filter SeriesResult.hasSamples)⟩ else none
  cases hpart : group.2.filter SeriesResult.hasSamples with
  | nil => rfl
  | cons sr part =>
    have hsr : sr.hasSamples = true :=
      (List.mem_filter.mp (hpart.symm ▸ List.mem_cons_self : sr ∈ group.2.filter _)).2
    have hvalues := groupSamples_ne_nil
      (fun values => interpolateQuantile (FloatOps.sorted values) q)
      (List.mem_cons_self (a := sr) (l := part)) hsr
    rw [seriesOf, if_neg (by simpa using hvalues)]
    rfl

/-! ### Operations -/

/-- A binary operator on two vectors, or an aggregation of one. -/
inductive VectorOperation (F64 : Type) where
  | binary (op : BinaryOp) (modifier : Option BinModifier) (lhs rhs : List (SeriesResult F64))
  | aggregation (op : AggregateOp) (modifier : Option LabelModifier)
    (series : List (SeriesResult F64)) (param : Option (PromQLResult F64))

namespace VectorOperation

/-- The operation on the series with their labels sorted. -/
def canonical : VectorOperation F64 → VectorOperation F64
  | binary op modifier lhs rhs =>
    binary op modifier (lhs.map SeriesResult.canonical) (rhs.map SeriesResult.canonical)
  | aggregation op modifier series param =>
    aggregation op modifier (series.map SeriesResult.canonical) param

variable [FloatOps F64]

/-- What the evaluator makes of it. -/
def outcome (debugStr : String → String) : VectorOperation F64 → Outcome F64
  | binary op modifier lhs rhs =>
    evalBinaryResult debugStr op modifier (.instantVector lhs) (.instantVector rhs)
  | aggregation op modifier series param => aggregateSeries op modifier series param

/-- **The order of the labels is left out of account**: labels that the operation compares come in
one order wherever it finds a match, or a group, with them sorted. -/
def OrderFree : VectorOperation F64 → Prop
  | binary op modifier lhs rhs =>
    let modRef := modifier.getD BinModifier.default
    let mode := MatchMode.fromModifier modRef.matching
    match op with
    | .and => FindOrderFree mode lhs rhs
    | .unless => FindOrderFree mode lhs rhs
    | .or => FindOrderFree mode rhs lhs
    | op => (JoinMode.fromCardinality modRef.card).OrderFree op modRef.returnBool mode lhs rhs
  | aggregation op modifier series param =>
    match op, param with
    | .func _, _ => GroupOrderFree modifier series
    | .quantile, some (.scalar q) =>
      inUnitInterval q = true → GroupOrderFree modifier (series.filter SeriesResult.hasSamples)
    | _, _ => True

end VectorOperation

section Operations

variable [FloatOps F64]

/-- A set operator, with the labels as they are and sorted. -/
theorem evalSetOp_canonical_iff {op : BinaryOp} (hop : op.isSetOp = true)
    (modifier : Option BinModifier) (lhs rhs : List (SeriesResult F64)) :
    SameSets
        ((evalSetOp op (MatchMode.fromModifier (modifier.getD BinModifier.default).matching) lhs
          rhs).map .instantVector)
        ((evalSetOp op (MatchMode.fromModifier (modifier.getD BinModifier.default).matching)
          (lhs.map SeriesResult.canonical) (rhs.map SeriesResult.canonical)).map .instantVector) ↔
      (VectorOperation.binary op modifier lhs rhs).OrderFree := by
  match op with
  | .and => exact withPartner_canonical_iff _ lhs rhs
  | .unless => exact withoutPartner_canonical_iff _ lhs rhs
  | .or =>
    refine Iff.trans ?_ (withoutPartner_canonical_iff _ rhs lhs)
    show List.Perm (List.map _ (_ ++ _)) (List.map _ (_ ++ _)) ↔ _
    have hleft : ((lhs.map SeriesResult.canonical).map SeriesResult.unnamed).map
        SeriesResult.canonical = (lhs.map SeriesResult.unnamed).map SeriesResult.canonical := by
      rw [List.map_map, List.map_map, List.map_map]
      exact List.map_congr_left fun sr _ => canonical_unnamed_canonical sr
    rw [List.map_append, List.map_append, hleft]
    exact List.perm_append_left_iff _
  | .add | .sub | .mul | .div | .mod | .pow | .atan2 | .gt | .lt | .gte | .lte | .eql | .neq =>
    exact absurd hop (by simp [BinaryOp.isSetOp])

theorem orderFree_binary {op : BinaryOp} (hop : op.isSetOp = false) (modifier : Option BinModifier)
    (lhs rhs : List (SeriesResult F64)) :
    (VectorOperation.binary op modifier lhs rhs).OrderFree =
      let modRef := modifier.getD BinModifier.default
      (JoinMode.fromCardinality modRef.card).OrderFree op modRef.returnBool
        (MatchMode.fromModifier modRef.matching) lhs rhs := by
  match op with
  | .and | .unless | .or => exact absurd hop (by simp [BinaryOp.isSetOp])
  | .add | .sub | .mul | .div | .mod | .pow | .atan2 | .gt | .lt | .gte | .lte | .eql | .neq => rfl

/-- Quantiles, with the labels as they are and sorted. -/
theorem quantileSeries_canonical_iff (q : F64) (modifier : Option LabelModifier)
    (series : List (SeriesResult F64)) :
    (((groupSeries modifier series).filterMap fun group =>
          seriesOf group.1 (quantileGroup q group.2)).map SeriesResult.canonical).Perm
        (((groupSeries modifier (series.map SeriesResult.canonical)).filterMap fun group =>
          seriesOf group.1 (quantileGroup q group.2)).map SeriesResult.canonical) ↔
      (inUnitInterval q = true → GroupOrderFree modifier (series.filter SeriesResult.hasSamples)) := by
  by_cases hq : inUnitInterval q = true
  · have hsamples : (series.map SeriesResult.canonical).filter SeriesResult.hasSamples =
        (series.filter SeriesResult.hasSamples).map SeriesResult.canonical := List.filter_map
    rw [quantileSeries_eq hq, quantileSeries_eq hq, hsamples, imp_iff_right hq]
    exact groupSeries_canonical_iff fun group => groupSamples_canonical _ group
  · have hnone (series : List (SeriesResult F64)) :
        ((groupSeries modifier series).filterMap fun group =>
          seriesOf group.1 (quantileGroup q group.2)) = [] := by
      refine List.filterMap_eq_nil_iff.mpr fun group _ => ?_
      rw [quantileGroup, Bool.eq_false_of_not_eq_true hq, Bool.not_false, Bool.or_true]
      rfl
    rw [hnone, hnone]
    exact iff_of_true (List.Perm.refl _) fun h => absurd h hq

/-- An aggregation, with the labels as they are and sorted. -/
theorem aggregateSeries_canonical_iff (op : AggregateOp) (modifier : Option LabelModifier)
    (series : List (SeriesResult F64)) (param : Option (PromQLResult F64)) :
    SameSets (aggregateSeries op modifier series param)
        (aggregateSeries op modifier (series.map SeriesResult.canonical) param) ↔
      (VectorOperation.aggregation op modifier series param).OrderFree := by
  have hranked (rank : SeriesResult F64 → SeriesResult F64 → Prop) [DecidableRel rank]
      (hrank : ∀ sr sr', rank sr.canonical sr'.canonical ↔ rank sr sr') (k : ℕ) :
      ((((series.map SeriesResult.canonical).insertionSort rank).take k).map
          SeriesResult.canonical) =
        ((series.insertionSort rank).take k).map SeriesResult.canonical := by
    rw [← List.map_insertionSort _ rank SeriesResult.canonical series fun a _ b _ => (hrank a b).symm,
      ← List.map_take, List.map_map]
    exact List.map_congr_left fun sr _ => sr.canonical_canonical
  match op with
  | .func f =>
    refine groupSeries_canonical_iff fun group => ?_
    rw [aggregateGroup_eq, aggregateGroup_eq, groupSamples_canonical]
  | .topk =>
    refine iff_of_true ?_ trivial
    rw [aggregateSeries, aggregateSeries]
    cases rankParam param with
    | error e => exact trivial
    | ok k => exact List.Perm.of_eq (hranked _ (fun _ _ => Iff.rfl) k).symm
  | .bottomk =>
    refine iff_of_true ?_ trivial
    rw [aggregateSeries, aggregateSeries]
    cases rankParam param with
    | error e => exact trivial
    | ok k => exact List.Perm.of_eq (hranked _ (fun _ _ => Iff.rfl) k).symm
  | .quantile =>
    rw [aggregateSeries, aggregateSeries]
    match param with
    | some (.scalar q) =>
      exact quantileSeries_canonical_iff q modifier series
    | none => exact iff_of_true trivial trivial
    | some (.instantVector _) => exact iff_of_true trivial trivial
    | some (.rangeVector _) => exact iff_of_true trivial trivial
  | .countValues => exact iff_of_true trivial trivial
  | .other name => exact iff_of_true trivial trivial

theorem evalBinaryResult_vectors (debugStr : String → String) (op : BinaryOp)
    (modifier : Option BinModifier) (lhs rhs : List (SeriesResult F64)) :
    evalBinaryResult debugStr op modifier (.instantVector lhs) (.instantVector rhs) =
      let modRef := modifier.getD BinModifier.default
      let mode := MatchMode.fromModifier modRef.matching
      (if op.isSetOp then evalSetOp op mode lhs rhs
        else evalVectorVector op modRef.returnBool mode debugStr
          (JoinMode.fromCardinality modRef.card) lhs rhs).map .instantVector := rfl

/-- **When matching and grouping depend on the label sets alone**: an operation has the same results
with the labels sorted exactly when the order of the labels is left out of account. -/
theorem VectorOperation.sameSets_iff (debugStr : String → String) (operation : VectorOperation F64) :
    SameSets (operation.outcome debugStr) (operation.canonical.outcome debugStr) ↔
      operation.OrderFree := by
  cases operation with
  | binary op modifier lhs rhs =>
    rw [VectorOperation.canonical, VectorOperation.outcome, VectorOperation.outcome,
      evalBinaryResult_vectors, evalBinaryResult_vectors]
    cases hop : op.isSetOp with
    | true => exact evalSetOp_canonical_iff hop modifier lhs rhs
    | false =>
      rw [orderFree_binary hop]
      exact evalVectorVector_canonical_iff op _ _ _ debugStr lhs rhs
  | aggregation op modifier series param =>
    exact aggregateSeries_canonical_iff op modifier series param

end Operations

/-! ### A label that is joined in -/

/-- Two metrics with the labels `zone` and `app`, interned in that order. -/
def twoMetrics : Env VecRodeo ℕ ℤ := Env.ofOps
  [.ingestSamples "a" [("zone", "z"), ("app", "y")] [⟨0, 1, 0⟩],
    .ingestSamples "b" [("zone", "z"), ("app", "y")] [⟨0, 2, 0⟩]]

/-- `a`. -/
def selectA : Expr ℤ := .vectorSelector ⟨some "a", [], none, none⟩

/-- `label_join(b, "x", "-", "app")`. -/
def joinB : Expr ℤ := .call .labelJoin [.vectorSelector ⟨some "b", [], none, none⟩,
  .stringLiteral "x", .stringLiteral "-", .stringLiteral "app"]

/-- What `a` evaluates to. -/
def zoneFirst : List (SeriesResult ℤ) :=
  [⟨[("__name__", "a"), ("zone", "z"), ("app", "y")], [(0, 1)]⟩]

/-- What `label_join(b, "x", "-", "app")` evaluates to. -/
def appFirst : List (SeriesResult ℤ) :=
  [⟨[("__name__", "b"), ("app", "y"), ("x", "y"), ("zone", "z")], [(0, 2)]⟩]

/-- `a + ignoring(x) label_join(b, "x", "-", "app")`. -/
def plusJoined : VectorOperation ℤ :=
  .binary .add (some ⟨some (.exclude ["x"]), .oneToOne, false⟩) zoneFirst appFirst

/-- The two sides list `zone` and `app` in different orders, and match only with them sorted. -/
theorem not_sameSets_plusJoined :
    evalExpr twoMetrics (Times.ofInstant 0) selectA = .ok (.instantVector zoneFirst) ∧
      evalExpr twoMetrics (Times.ofInstant 0) joinB = .ok (.instantVector appFirst) ∧
        ¬ SameSets (plusJoined.outcome id) (plusJoined.canonical.outcome id) := by
  refine ⟨rfl, rfl, fun h => ?_⟩
  have hfree := (evalVectorVector_canonical_iff .add false (.ignoring ["x"]) .plain id zoneFirst
    appFirst).mp h
  have hkeys := hfree _ List.mem_cons_self _ List.mem_cons_self (by decide)
    ⟨(0, 1), List.mem_cons_self, 2, rfl, rfl⟩
  exact absurd hkeys.1 (by decide)

end PromQL

end Aniani
