import Aniani.ForMathlib.Standing
import Aniani.Query.FloatOrder
import Aniani.Query.PromQL.Stepwise

/-!
# Operators that decide once for a range

`and`, `or`, `unless`, `topk` and `bottomk` keep or drop a series as a whole, and `absent`, `vector`
and `time` give one sample, at the end of the range. An instant query has one time, so there this is
what the operators are meant to do. A range query agrees with it at a step exactly when the decision
for the whole range is the one for the step.

## Main definitions

* `MatchesInstant` — a range query at a step against the instant query
* `TopOperator` — the expressions with one of the operators at the top
* `AggregateOp.ahead`, `RanksAgree` — how many series are ranked before one, and when two rankings
  take the same
* `Settled` — the condition

## Main results

* `TopOperator.matchesInstant_iff` — **when the two agree**
-/

namespace Aniani

namespace PromQL

open FloatOps

variable {F64 : Type}

/-! ### The part at a time -/

theorem seriesAt_append (t : ℤ) (series series' : List (SeriesResult F64)) :
    seriesAt t (series ++ series') = seriesAt t series ++ seriesAt t series' :=
  List.filterMap_append

theorem seriesAt_filter (t : ℤ) (p : SeriesLabelSet → Bool) (series : List (SeriesResult F64)) :
    seriesAt t (series.filter fun sr => p sr.labels) =
      (seriesAt t series).filter fun sr => p sr.labels := by
  rw [seriesAt, seriesAt, List.filterMap_filter, List.filter_filterMap]
  refine List.filterMap_congr fun sr _ => ?_
  cases h : seriesOf sr.labels (sr.samples.filter fun s => s.1 == t) with
  | none => simp
  | some sr' => rw [Option.filter_some, seriesOf_labels h]

theorem seriesAt_map_unnamed (t : ℤ) (series : List (SeriesResult F64)) :
    seriesAt t (series.map SeriesResult.unnamed) = (seriesAt t series).map SeriesResult.unnamed := by
  rw [seriesAt, seriesAt, List.filterMap_map, List.map_filterMap]
  refine List.filterMap_congr fun sr _ => ?_
  have hmap := seriesOf_map sr.labels (sr.samples.filter fun s => s.1 == t)
    labelsWithoutMetricName id
  simp only [List.map_id] at hmap
  exact hmap.symm

/-- A series at a time. -/
def SeriesResult.partAt (t : ℤ) (sr : SeriesResult F64) : Option (SeriesResult F64) :=
  seriesOf sr.labels (sr.samples.filter fun s => s.1 == t)

theorem mem_seriesAt {t : ℤ} {series : List (SeriesResult F64)} {sr' : SeriesResult F64}
    (h : sr' ∈ seriesAt t series) : ∃ sr ∈ series, sr'.labels = sr.labels := by
  obtain ⟨sr, hsr, hseries⟩ := List.mem_filterMap.mp h
  exact ⟨sr, hsr, seriesOf_labels hseries⟩

theorem hasKey_iff {mode : MatchMode} {series : List (SeriesResult F64)} {key : SeriesLabelSet} :
    hasKey mode series key = true ↔ ∃ sr ∈ series, mode.matchKey sr.labels = key := by
  rw [hasKey, List.contains_iff_mem, List.mem_map]

/-- A key at a time is a key of the range. -/
theorem hasKey_of_seriesAt {mode : MatchMode} {t : ℤ} {series : List (SeriesResult F64)}
    {key : SeriesLabelSet} (h : hasKey mode (seriesAt t series) key = true) :
    hasKey mode series key = true := by
  obtain ⟨sr', hsr', rfl⟩ := hasKey_iff.mp h
  obtain ⟨sr, hsr, hlabels⟩ := mem_seriesAt hsr'
  exact hasKey_iff.mpr ⟨sr, hsr, by rw [hlabels]⟩

theorem hasKey_perm {mode : MatchMode} {series series' : List (SeriesResult F64)}
    (h : series.Perm series') : hasKey mode series = hasKey mode series' := by
  funext key
  rw [Bool.eq_iff_iff, hasKey_iff, hasKey_iff]
  simp only [h.mem_iff]

/-- Two parts of a list, one in the other, are the same up to a map exactly when they are the same
part. -/
theorem map_filter_perm_iff {α β : Type} {l : List α} {p q : α → Bool} {f : α → β}
    (h : ∀ a, q a = true → p a = true) :
    ((l.filter p).map f).Perm ((l.filter q).map f) ↔ ∀ a ∈ l, p a = true → q a = true := by
  constructor
  · intro hperm
    have hlength : (l.filter p).length = (l.filter q).length := by
      simpa using hperm.length_eq
    have hsub : (l.filter q).Sublist (l.filter p) := List.monotone_filter_right l h
    intro a ha hp
    have hmem : a ∈ l.filter q := hsub.eq_of_length hlength.symm ▸ List.mem_filter.mpr ⟨ha, hp⟩
    exact (List.mem_filter.mp hmem).2
  · intro himp
    rw [List.filter_congr fun a ha => Bool.eq_iff_iff.mpr ⟨himp a ha, h a⟩]

/-! ### Results that agree at a time -/

/-- What the first result reports at a time is the second result, up to the order of the series. -/
inductive AtTime (t : ℤ) : PromQLResult F64 → PromQLResult F64 → Prop
  | instantVector {series series' : List (SeriesResult F64)}
    (h : (seriesAt t series).Perm series') : AtTime t (.instantVector series) (.instantVector series')
  | rangeVector {series series' : List (SeriesResult F64)}
    (h : (seriesAt t series).Perm series') : AtTime t (.rangeVector series) (.rangeVector series')
  | scalar (v : F64) : AtTime t (.scalar v) (.scalar v)

theorem agree_iff_atTime {t : ℤ} {range instant : PromQLResult F64} :
    Agree (.ok (range.atTime t)) (.ok instant) ↔ AtTime t range instant := by
  constructor
  · intro h
    match range, instant with
    | .instantVector _, .instantVector _ => exact .instantVector h
    | .rangeVector _, .rangeVector _ => exact .rangeVector h
    | .scalar _, .scalar _ =>
      obtain rfl := PromQLResult.scalar.inj (Except.ok.inj h)
      exact .scalar _
    | .instantVector _, .rangeVector _ | .instantVector _, .scalar _ | .rangeVector _, .scalar _
    | .rangeVector _, .instantVector _ | .scalar _, .instantVector _ | .scalar _, .rangeVector _ =>
      exact absurd (Except.ok.inj h) (by simp [PromQLResult.atTime])
  · rintro (h | h | _)
    · exact h
    · exact h
    · exact Agree.of_eq rfl

/-- Outcomes that agree at a time are one error, or results that do. -/
theorem agree_atTime_cases {t : ℤ} {range instant : Outcome F64}
    (h : Agree (range.map (PromQLResult.atTime t)) instant) :
    (∃ e, range = .error e ∧ instant = .error e) ∨
      ∃ r i, range = .ok r ∧ instant = .ok i ∧ AtTime t r i := by
  match range, instant with
  | .ok r, .ok i => exact .inr ⟨r, i, rfl, rfl, agree_iff_atTime.mp h⟩
  | .ok (.instantVector _), .error e | .ok (.rangeVector _), .error e | .ok (.scalar _), .error e =>
    exact absurd (show (_ : Outcome F64) = _ from h) (by simp)
  | .error e, .ok (.instantVector _) | .error e, .ok (.rangeVector _) | .error e, .ok (.scalar _) =>
    exact absurd (show (Except.error e : Outcome F64) = .ok _ from h) (by simp)
  | .error e, .error e' =>
    exact .inl ⟨e, rfl, (show (_ : Outcome F64) = _ from h).symm⟩

section Operators

variable [FloatOps F64]

/-! ### Set operators -/

/-- The decision of a set operator for the range is the one for the time: of the series present at
the time, none is decided on by a key that the other side only has at another time. -/
def SetOpSettled (op : BinaryOp) (mode : MatchMode) (t : ℤ) :
    PromQLResult F64 → PromQLResult F64 → Prop
  | .instantVector lhs, .instantVector rhs =>
    match op with
    | .or => ∀ rs ∈ seriesAt t rhs, hasKey mode lhs (mode.matchKey rs.labels) = true →
        hasKey mode (seriesAt t lhs) (mode.matchKey rs.labels) = true
    | _ => ∀ ls ∈ seriesAt t lhs, hasKey mode rhs (mode.matchKey ls.labels) = true →
        hasKey mode (seriesAt t rhs) (mode.matchKey ls.labels) = true
  | _, _ => True

omit [FloatOps F64] in
/-- A part picked out by the keys of the other side. -/
theorem keys_agree_iff {keep : Bool → Bool} (hkeep : keep = id ∨ keep = not) (mode : MatchMode)
    {t : ℤ} {series other series' other' : List (SeriesResult F64)}
    (hs : (seriesAt t series).Perm series') (ho : (seriesAt t other).Perm other') :
    (seriesAt t ((series.filter fun sr => keep (hasKey mode other (mode.matchKey sr.labels))).map
          SeriesResult.unnamed)).Perm
        ((series'.filter fun sr => keep (hasKey mode other' (mode.matchKey sr.labels))).map
          SeriesResult.unnamed) ↔
      ∀ sr ∈ seriesAt t series, hasKey mode other (mode.matchKey sr.labels) = true →
        hasKey mode (seriesAt t other) (mode.matchKey sr.labels) = true := by
  have hkey (sr : SeriesResult F64)
      (h : hasKey mode (seriesAt t other) (mode.matchKey sr.labels) = true) :
      hasKey mode other (mode.matchKey sr.labels) = true := hasKey_of_seriesAt h
  rw [seriesAt_map_unnamed,
    seriesAt_filter t fun labels => keep (hasKey mode other (mode.matchKey labels)),
    ← hasKey_perm ho]
  refine (List.Perm.congr_right ((hs.filter _).map _).symm _).trans ?_
  rcases hkeep with rfl | rfl
  · exact map_filter_perm_iff hkey
  · -- the part for the time is the greater one
    have hnot (sr : SeriesResult F64) (h : (!hasKey mode other (mode.matchKey sr.labels)) = true) :
        (!hasKey mode (seriesAt t other) (mode.matchKey sr.labels)) = true := by
      rw [Bool.not_eq_true'] at h ⊢
      exact Bool.eq_false_iff.mpr fun hat => Bool.eq_false_iff.mp h (hkey sr hat)
    refine List.perm_comm.trans ((map_filter_perm_iff hnot).trans (forall₂_congr fun sr _ => ?_))
    rw [Bool.not_eq_true', Bool.not_eq_true', ← Bool.not_eq_true, ← Bool.not_eq_true]
    exact not_imp_not

omit [FloatOps F64] in
theorem evalSetOp_agree_iff {op : BinaryOp} (hop : op.isSetOp = true) (mode : MatchMode) {t : ℤ}
    {lhs rhs lhs' rhs' : List (SeriesResult F64)} (hl : (seriesAt t lhs).Perm lhs')
    (hr : (seriesAt t rhs).Perm rhs') :
    Agree (((evalSetOp op mode lhs rhs).map .instantVector).map (PromQLResult.atTime t))
        ((evalSetOp op mode lhs' rhs').map .instantVector) ↔
      SetOpSettled op mode t (.instantVector lhs) (.instantVector rhs) := by
  match op, hop with
  | .and, _ => exact keys_agree_iff (.inl rfl) mode hl hr
  | .unless, _ => exact keys_agree_iff (.inr rfl) mode hl hr
  | .or, _ =>
    show (seriesAt t (lhs.map SeriesResult.unnamed ++ _)).Perm (lhs'.map SeriesResult.unnamed ++ _) ↔ _
    rw [seriesAt_append, seriesAt_map_unnamed]
    refine (List.Perm.congr_right ((hl.map _).symm.append_right _) _).trans ?_
    exact (List.perm_append_left_iff _).trans (keys_agree_iff (.inr rfl) mode hr hl)

theorem filter_scalarSamples (op : BinaryOp) (returnBool isLhsScalar : Bool) (scalar : F64) (t : ℤ)
    (samples : List (ℤ × F64)) :
    (scalarSamples op returnBool isLhsScalar scalar samples).filter (fun s => s.1 == t) =
      scalarSamples op returnBool isLhsScalar scalar (samples.filter fun s => s.1 == t) := by
  rw [scalarSamples, scalarSamples, List.filter_filterMap, List.filterMap_filter]
  refine List.filterMap_congr fun s _ => ?_
  rw [comparisonSample_eq]
  cases comparedValue op returnBool s.2
      (if isLhsScalar then applyBinaryOp op scalar s.2 else applyBinaryOp op s.2 scalar) with
  | none => simp
  | some v => rfl

theorem seriesAt_scalarSamples (op : BinaryOp) (returnBool isLhsScalar : Bool) (scalar : F64) (t : ℤ)
    (series : List (SeriesResult F64)) :
    seriesAt t (series.filterMap fun sr => seriesOf sr.labels
        (scalarSamples op returnBool isLhsScalar scalar sr.samples)) =
      (seriesAt t series).filterMap fun sr => seriesOf sr.labels
        (scalarSamples op returnBool isLhsScalar scalar sr.samples) := by
  rw [seriesAt, seriesAt, List.filterMap_filterMap, List.filterMap_filterMap]
  refine List.filterMap_congr fun sr _ => ?_
  rw [seriesOf_bind_self _ _ rfl, seriesOf_bind_self _ _ rfl, filter_scalarSamples]

/-- **Set operators.** -/
theorem AtTime.setOp_agree_iff {op : BinaryOp} (hop : op.isSetOp = true) (debugStr : String → String)
    (modifier : Option BinModifier) {t : ℤ} {lhs rhs lhs' rhs' : PromQLResult F64}
    (hl : AtTime t lhs lhs') (hr : AtTime t rhs rhs') :
    Agree ((evalBinaryResult debugStr op modifier lhs rhs).map (PromQLResult.atTime t))
        (evalBinaryResult debugStr op modifier lhs' rhs') ↔
      SetOpSettled op (MatchMode.fromModifier (modifier.getD BinModifier.default).matching) t lhs
        rhs := by
  cases hl with
  | instantVector hl =>
    cases hr with
    | instantVector hr =>
      rw [evalBinaryResult, evalBinaryResult, hop]
      exact evalSetOp_agree_iff hop _ hl hr
    | rangeVector hr => exact iff_of_true (Agree.of_eq rfl) trivial
    | scalar v =>
      refine iff_of_true ?_ trivial
      show (seriesAt t (List.filterMap _ _)).Perm _
      rw [seriesAt_scalarSamples]
      exact hl.filterMap _
  | rangeVector hl => cases hr <;> exact iff_of_true (Agree.of_eq rfl) trivial
  | scalar v =>
    cases hr with
    | instantVector hr =>
      refine iff_of_true ?_ trivial
      show (seriesAt t (List.filterMap _ _)).Perm _
      rw [seriesAt_scalarSamples]
      exact hr.filterMap _
    | rangeVector hr => exact iff_of_true (Agree.of_eq rfl) trivial
    | scalar v' => exact iff_of_true (Agree.of_eq rfl) trivial

/-! ### Ranks and single samples -/

/-- The series of a vector. -/
def PromQLResult.series? : PromQLResult F64 → Option (List (SeriesResult F64))
  | .instantVector series => some series
  | .rangeVector series => some series
  | .scalar _ => none

/-- Some series is present at the time, or none in the whole range, of which the time is the end. -/
def AbsentSettled (endMs t : ℤ) (range : PromQLResult F64) : Prop :=
  match range.series? with
  | some series => seriesAt t series = [] → series = [] ∧ t = endMs
  | none => True

/-- The result is no scalar, or the time is the end. -/
def VectorSettled (endMs t : ℤ) : PromQLResult F64 → Prop
  | .scalar _ => t = endMs
  | _ => True

omit [FloatOps F64] in
theorem single_atTime (endMs t : ℤ) (v : F64) :
    (single endMs v).atTime t = if endMs = t then single t v else .instantVector [] := by
  split
  · next h =>
    subst h
    simp [single, PromQLResult.atTime, seriesAt, seriesOf]
  · next h =>
    simp [single, PromQLResult.atTime, seriesAt, seriesOf, h]

omit [FloatOps F64] in
theorem single_agree_iff {endMs t : ℤ} {v v' : F64} (hv : endMs = t → v = v') :
    Agree (.ok ((single endMs v).atTime t)) (.ok (single t v')) ↔ t = endMs := by
  rw [single_atTime]
  split
  · next h => exact iff_of_true (Agree.of_eq (by rw [hv h])) h.symm
  · next h =>
    refine iff_of_false (fun hperm => ?_) (Ne.symm h)
    exact absurd (show List.Perm [] [_] from hperm).length_eq (by simp)

theorem applyAbsent_eq (endMs : ℤ) (result : PromQLResult F64) :
    applyAbsent endMs result = match result.series? with
      | some [] => single endMs FloatOps.one
      | _ => .instantVector [] := by
  match result with
  | .instantVector [] | .rangeVector [] | .instantVector (_ :: _) | .rangeVector (_ :: _)
  | .scalar _ => rfl

omit [FloatOps F64] in
theorem AtTime.series? {t : ℤ} {range instant : PromQLResult F64} (h : AtTime t range instant) :
    (range.series? = none ∧ instant.series? = none) ∨
      ∃ series series', range.series? = some series ∧ instant.series? = some series' ∧
        (seriesAt t series).Perm series' := by
  cases h with
  | instantVector h => exact .inr ⟨_, _, rfl, rfl, h⟩
  | rangeVector h => exact .inr ⟨_, _, rfl, rfl, h⟩
  | scalar v => exact .inl ⟨rfl, rfl⟩

/-- **`absent`.** -/
theorem AtTime.absent_agree_iff {endMs t : ℤ} {range instant : PromQLResult F64}
    (h : AtTime t range instant) :
    Agree (.ok ((applyAbsent endMs range).atTime t)) (.ok (applyAbsent t instant)) ↔
      AbsentSettled endMs t range := by
  rw [applyAbsent_eq, applyAbsent_eq, AbsentSettled]
  rcases h.series? with ⟨hr, hi⟩ | ⟨series, series', hr, hi, hperm⟩
  · rw [hr, hi]
    exact iff_of_true (Agree.of_eq rfl) trivial
  rw [hr, hi]
  cases series with
  | nil =>
    obtain rfl := List.Perm.nil_eq hperm
    exact (single_agree_iff fun _ => rfl).trans ⟨fun h _ => ⟨rfl, h⟩, fun h => (h rfl).2⟩
  | cons sr series =>
    cases series' with
    | nil =>
      refine iff_of_false (fun h => ?_) fun h => ?_
      · exact absurd (show List.Perm [] [_] from h).length_eq (by simp)
      · exact absurd (h hperm.eq_nil).1 (by simp)
    | cons sr' series' =>
      refine iff_of_true (Agree.of_eq rfl) fun hnil => ?_
      rw [hnil] at hperm
      exact absurd hperm.length_eq (by simp)

omit [FloatOps F64] in
/-- **`vector`.** -/
theorem AtTime.vector_agree_iff {endMs t : ℤ} {range instant : PromQLResult F64}
    (h : AtTime t range instant) :
    Agree (.ok ((applyVector endMs range).atTime t)) (.ok (applyVector t instant)) ↔
      VectorSettled endMs t range := by
  cases h with
  | instantVector h => exact iff_of_true (agree_iff_atTime.mpr (.instantVector h)) trivial
  | rangeVector h => exact iff_of_true (agree_iff_atTime.mpr (.rangeVector h)) trivial
  | scalar v => exact single_agree_iff fun _ => rfl

/-- What `topk` or `bottomk` keeps. -/
def AggregateOp.rank (op : AggregateOp) (k : ℕ) (series : List (SeriesResult F64)) :
    List (SeriesResult F64) :=
  match op with
  | .bottomk => PromQL.bottomk k series
  | _ => PromQL.topk k series

theorem aggregateSeries_rank {op : AggregateOp} (hop : op = .topk ∨ op = .bottomk)
    (modifier : Option LabelModifier) (series : List (SeriesResult F64))
    (param : Option (PromQLResult F64)) :
    aggregateSeries op modifier series param =
      (rankParam param).map fun k => .instantVector (op.rank k series) := by
  rcases hop with rfl | rfl <;> rfl

theorem evalAggregation_eq (op : AggregateOp) (modifier : Option LabelModifier)
    (inner : PromQLResult F64) (param : Option (PromQLResult F64)) :
    evalAggregation op modifier inner param = match inner.series? with
      | some series => aggregateSeries op modifier series param
      | none => .ok inner := by
  cases inner <;> rfl

/-- One value comes before another: the greater one in `topk`, the less one in `bottomk`. -/
def AggregateOp.outranks (op : AggregateOp) (v w : F64) : Bool :=
  match op with
  | .bottomk => lt v w
  | _ => lt w v

/-- How many series of a vector are ahead of the one at a place: those whose last value outranks
its own, and of those with the same value the earlier ones. -/
def AggregateOp.ahead (op : AggregateOp) (series : List (SeriesResult F64))
    (p : SeriesResult F64 × ℕ) : ℕ :=
  series.zipIdx.countP fun q => op.outranks (rankValue q.1) (rankValue p.1) ||
    (!op.outranks (rankValue p.1) (rankValue q.1) && decide (q.2 < p.2))

open Classical in
/-- Of the series that look alike at the time as many have fewer than `k` others ahead of them by
their last samples in the range as by their samples at the time. With a `NaN` among the values
`sort_by` promises no order, and there is nothing to say but that what comes of it is the same. -/
def RanksAgree (op : AggregateOp) (k : ℕ) (t : ℤ) (series series' : List (SeriesResult F64)) :
    Prop :=
  if ∃ sr ∈ series ++ series', isNan (rankValue sr) = true then
    (seriesAt t (op.rank k series)).Perm (op.rank k series')
  else ∀ sr, (series.zipIdx.countP fun p => p.1.partAt t = some sr ∧ op.ahead series p < k) =
    series'.zipIdx.countP fun p => p.1 = sr ∧ op.ahead series' p < k

/-- The ranking by last samples is the ranking of the time. -/
def RankSettled (op : AggregateOp) (t : ℤ) (range instant param : PromQLResult F64) : Prop :=
  match range.series?, instant.series?, param with
  | some series, some series', .scalar v => RanksAgree op (scalarToCount v) t series series'
  | _, _, _ => True

omit [FloatOps F64] in
theorem or_not_and_iff {κ : Type*} [LinearOrder κ] {x y : κ} {P : Prop} :
    x < y ∨ ¬ y < x ∧ P ↔ x < y ∨ x = y ∧ P := by
  rcases lt_trichotomy x y with hlt | rfl | hgt
  · simp [hlt]
  · simp
  · simp [hgt, hgt.not_gt, hgt.ne']

/-- Where the ranking is by a key, what is ahead is what has a lesser key or comes earlier. -/
theorem AggregateOp.ahead_eq {κ : Type*} [LinearOrder κ] {op : AggregateOp}
    (key : SeriesResult F64 → κ) {series : List (SeriesResult F64)}
    (h : ∀ a ∈ series, ∀ b ∈ series,
      (op.outranks (rankValue a) (rankValue b) = true ↔ key a < key b))
    {p : SeriesResult F64 × ℕ} (hp : p ∈ series.zipIdx) :
    op.ahead series p = series.ahead key p := by
  refine List.countP_congr fun q hq => ?_
  have hp := List.fst_mem_of_mem_zipIdx hp
  have hq := List.fst_mem_of_mem_zipIdx hq
  rw [Bool.or_eq_true, Bool.and_eq_true, Bool.not_eq_true', decide_eq_true_eq, decide_eq_true_eq,
    ← Bool.not_eq_true, h _ hq _ hp, h _ hp _ hq]
  exact or_not_and_iff

/-- **The series that are kept** are those with few ahead of them. -/
theorem AggregateOp.rank_perm [ExtendedOrder F64] {op : AggregateOp}
    (hop : op = .topk ∨ op = .bottomk) {series : List (SeriesResult F64)}
    (h : ∀ sr ∈ series, isNan (rankValue sr) = false) (k : ℕ) :
    (op.rank k series).Perm
      ((series.zipIdx.filter fun p => op.ahead series p < k).map Prod.fst) := by
  rcases hop with rfl | rfl
  · show ((FloatOps.sortedByDesc rankValue series).take k).Perm _
    rw [sortedByDesc_eq_sortByKey h]
    refine (List.take_sortByKey_perm _ series k).trans (.of_eq (congrArg _ ?_))
    refine List.filter_congr fun p hp => ?_
    rw [AggregateOp.ahead_eq (fun sr => OrderDual.toDual (ExtendedOrder.place (rankValue sr)))
      (fun a ha b hb => ?_) hp]
    exact (ExtendedOrder.lt_eq_true_iff (h b hb) (h a ha)).trans OrderDual.toDual_lt_toDual.symm
  · show ((FloatOps.sortedBy rankValue series).take k).Perm _
    rw [sortedBy_eq_sortByKey h]
    refine (List.take_sortByKey_perm _ series k).trans (.of_eq (congrArg _ ?_))
    refine List.filter_congr fun p hp => ?_
    rw [AggregateOp.ahead_eq (fun sr => ExtendedOrder.place (rankValue sr))
      (fun a ha b hb => ?_) hp]
    exact ExtendedOrder.lt_eq_true_iff (h a ha) (h b hb)

open Classical in
theorem AggregateOp.seriesAt_rank_perm_iff [ExtendedOrder F64] {op : AggregateOp}
    (hop : op = .topk ∨ op = .bottomk) (k : ℕ) (t : ℤ) (series series' : List (SeriesResult F64)) :
    (seriesAt t (op.rank k series)).Perm (op.rank k series') ↔
      RanksAgree op k t series series' := by
  unfold RanksAgree
  split_ifs with hnan
  · exact Iff.rfl
  · have hnum (sr : SeriesResult F64) (hsr : sr ∈ series ++ series') :
        isNan (rankValue sr) = false := Bool.eq_false_iff.mpr fun heq => hnan ⟨sr, hsr, heq⟩
    have hrank := op.rank_perm hop (fun sr hsr => hnum sr (List.mem_append_left _ hsr)) k
    have hrank' := op.rank_perm hop (fun sr hsr => hnum sr (List.mem_append_right _ hsr)) k
    rw [List.perm_iff_count]
    refine forall_congr' fun sr => ?_
    rw [seriesAt, (hrank.filterMap _).count_eq, hrank'.count_eq, List.count_filterMap,
      List.countP_map, List.countP_filter, List.count, List.countP_map, List.countP_filter]
    refine Eq.congr (List.countP_congr fun p _ => ?_) (List.countP_congr fun p _ => ?_)
    · simp only [Bool.and_eq_true, beq_iff_eq, decide_eq_true_eq, Function.comp_apply]
      exact Iff.rfl
    · simp

omit [FloatOps F64] in
theorem countP_zipIdx_le_one {series : List (SeriesResult F64)}
    (h : (series.map SeriesResult.labels).Nodup) (labels : SeriesLabelSet)
    {P : SeriesResult F64 × ℕ → Bool} (hP : ∀ p, P p = true → p.1.labels = labels) :
    series.zipIdx.countP P ≤ 1 := by
  calc series.zipIdx.countP P
      ≤ series.zipIdx.countP ((fun l => l == labels) ∘ SeriesResult.labels ∘ Prod.fst) := by
        refine List.countP_mono_left fun p _ hp => ?_
        exact beq_iff_eq.mpr (hP p hp)
    _ = (series.map SeriesResult.labels).count labels := by
        rw [← Function.comp_assoc, ← List.countP_map, List.zipIdx_map_fst, ← List.countP_map]
        rfl
    _ ≤ 1 := List.nodup_iff_count_le_one.mp h labels

open Classical in
/-- **Where no label set comes up twice**, a series of the time has to be among the first in the one
ranking if it is in the other. -/
theorem ranksAgree_iff_of_nodup {op : AggregateOp} {k : ℕ} {t : ℤ}
    {series series' : List (SeriesResult F64)} (hperm : (seriesAt t series).Perm series')
    (hnodup : (series.map SeriesResult.labels).Nodup)
    (hnodup' : (series'.map SeriesResult.labels).Nodup)
    (hnum : ∀ sr ∈ series ++ series', isNan (rankValue sr) = false) :
    RanksAgree op k t series series' ↔ ∀ p ∈ series.zipIdx, ∀ p' ∈ series'.zipIdx,
      p.1.partAt t = some p'.1 → (op.ahead series p < k ↔ op.ahead series' p' < k) := by
  have hnan : ¬ ∃ sr ∈ series ++ series', isNan (rankValue sr) = true :=
    fun ⟨sr, hsr, heq⟩ => Bool.false_ne_true ((hnum sr hsr).symm.trans heq)
  have hcount (sr : SeriesResult F64) :
      (series.zipIdx.countP fun p => p.1.partAt t = some sr ∧ op.ahead series p < k) =
          (series'.zipIdx.countP fun p => p.1 = sr ∧ op.ahead series' p < k) ↔
        ((∃ p ∈ series.zipIdx, p.1.partAt t = some sr ∧ op.ahead series p < k) ↔
          ∃ p' ∈ series'.zipIdx, p'.1 = sr ∧ op.ahead series' p' < k) := by
    have hle := countP_zipIdx_le_one hnodup sr.labels
      (P := fun p => p.1.partAt t = some sr ∧ op.ahead series p < k)
      fun p hp => (seriesOf_labels (of_decide_eq_true hp).1).symm
    have hle' := countP_zipIdx_le_one hnodup' sr.labels
      (P := fun p => p.1 = sr ∧ op.ahead series' p < k) fun p hp => (of_decide_eq_true hp).1 ▸ rfl
    have hpos := List.countP_pos_iff (l := series.zipIdx)
      (p := fun p => decide (p.1.partAt t = some sr ∧ op.ahead series p < k))
    have hpos' := List.countP_pos_iff (l := series'.zipIdx)
      (p := fun p => decide (p.1 = sr ∧ op.ahead series' p < k))
    simp only [decide_eq_true_eq] at hpos hpos'
    rw [← hpos, ← hpos']
    omega
  have hunique {l : List (SeriesResult F64)} (hl : (l.map SeriesResult.labels).Nodup)
      {p q : SeriesResult F64 × ℕ} (hp : p ∈ l.zipIdx) (hq : q ∈ l.zipIdx)
      (h : p.1.labels = q.1.labels) : p = q := by
    rw [← List.zipIdx_map_fst 0 l, List.map_map] at hl
    exact List.inj_on_of_nodup_map hl hp hq h
  have hplace {l : List (SeriesResult F64)} {sr : SeriesResult F64} (h : sr ∈ l) :
      ∃ p ∈ l.zipIdx, p.1 = sr := by
    rwa [← List.zipIdx_map_fst 0 l, List.mem_map] at h
  rw [RanksAgree, if_neg hnan]
  simp only [hcount]
  constructor
  · intro h p hp p' hp' hpart
    constructor
    · intro hlt
      obtain ⟨q', hq', heq, hlt'⟩ := (h p'.1).mp ⟨p, hp, hpart, hlt⟩
      rwa [hunique hnodup' hp' hq' (by rw [heq])]
    · intro hlt
      obtain ⟨q, hq, hpart', hlt'⟩ := (h p'.1).mpr ⟨p', hp', rfl, hlt⟩
      rwa [hunique hnodup hp hq ((seriesOf_labels hpart).symm.trans (seriesOf_labels hpart'))]
  · intro h sr
    constructor
    · rintro ⟨p, hp, hpart, hlt⟩
      obtain ⟨p', hp', rfl⟩ := hplace (hperm.mem_iff.mp
        (List.mem_filterMap.mpr ⟨p.1, List.fst_mem_of_mem_zipIdx hp, hpart⟩))
      exact ⟨p', hp', rfl, (h p hp p' hp' hpart).mp hlt⟩
    · rintro ⟨p', hp', rfl, hlt⟩
      obtain ⟨sr, hsr, hpart⟩ := List.mem_filterMap.mp
        (hperm.mem_iff.mpr (List.fst_mem_of_mem_zipIdx hp'))
      obtain ⟨p, hp, rfl⟩ := hplace hsr
      exact ⟨p, hp, hpart, (h p hp p' hp' hpart).mpr hlt⟩

/-- **`topk` and `bottomk`.** -/
theorem AtTime.rank_agree_iff [ExtendedOrder F64] {op : AggregateOp}
    (hop : op = .topk ∨ op = .bottomk) (modifier : Option LabelModifier) {t : ℤ}
    {range instant param param' : PromQLResult F64} (h : AtTime t range instant)
    (hparam : AtTime t param param') :
    Agree ((evalAggregation op modifier range (some param)).map (PromQLResult.atTime t))
        (evalAggregation op modifier instant (some param')) ↔
      RankSettled op t range instant param' := by
  unfold RankSettled
  rw [evalAggregation_eq, evalAggregation_eq]
  rcases h.series? with ⟨hr, hi⟩ | ⟨series, series', hr, hi, -⟩
  · rw [hr, hi]
    exact iff_of_true (agree_iff_atTime.mpr h) trivial
  rw [hr, hi]
  show Agree (Except.map _ (aggregateSeries _ _ _ _)) (aggregateSeries _ _ _ _) ↔ _
  rw [aggregateSeries_rank hop, aggregateSeries_rank hop]
  cases hparam with
  | instantVector _ => exact iff_of_true (Agree.of_eq rfl) trivial
  | rangeVector _ => exact iff_of_true (Agree.of_eq rfl) trivial
  | scalar v => exact op.seriesAt_rank_perm_iff hop (scalarToCount v) t series series'

end Operators

/-! ### Expressions -/

section Expressions

variable [FloatOps F64] {Rodeo Spur : Type} [LinearOrder Spur] [Interner Rodeo Spur]
  (env : Env Rodeo Spur F64) (startMs endMs stepMs t : ℤ)

/-- The range query reports at the time what the instant query gives there. -/
def MatchesInstant (e : Expr F64) : Prop :=
  Agree ((evalExpr env (Times.ofRange startMs endMs stepMs) e).map (PromQLResult.atTime t))
    (evalExpr env (Times.ofInstant t) e)

/-- One of the operators at the top, applied to operands of a kind. -/
inductive TopOperator (P : Expr F64 → Prop) : Expr F64 → Prop
  | setOp {lhs rhs : Expr F64} (hl : P lhs) (hr : P rhs) {op : BinaryOp} (hop : op.isSetOp = true)
    (modifier : Option BinModifier) : TopOperator P (.binary op lhs rhs modifier)
  | rank {e param : Expr F64} (he : P e) (hparam : P param) {op : AggregateOp}
    (hop : op = .topk ∨ op = .bottomk) (modifier : Option LabelModifier) :
    TopOperator P (.aggregate op e (some param) modifier)
  | absent {e : Expr F64} (he : P e) (args : List (Expr F64)) :
    TopOperator P (.call .absent (e :: args))
  | vector {e : Expr F64} (he : P e) (args : List (Expr F64)) :
    TopOperator P (.call .vector (e :: args))
  | time (args : List (Expr F64)) : TopOperator P (.call .time args)

/-- **The condition**: the decision for the range is the one for the time. -/
def Settled : Expr F64 → Prop
  | .binary op lhs rhs modifier => ∀ l r,
    evalExpr env (Times.ofRange startMs endMs stepMs) lhs = .ok l →
      evalExpr env (Times.ofRange startMs endMs stepMs) rhs = .ok r →
        SetOpSettled op (MatchMode.fromModifier (modifier.getD BinModifier.default).matching) t l r
  | .aggregate op e (some param) _ => ∀ r i p,
    evalExpr env (Times.ofRange startMs endMs stepMs) e = .ok r →
      evalExpr env (Times.ofInstant t) e = .ok i →
        evalExpr env (Times.ofInstant t) param = .ok p → RankSettled op t r i p
  | .call .absent (e :: _) => ∀ r,
    evalExpr env (Times.ofRange startMs endMs stepMs) e = .ok r → AbsentSettled endMs t r
  | .call .vector (e :: _) => ∀ r,
    evalExpr env (Times.ofRange startMs endMs stepMs) e = .ok r → VectorSettled endMs t r
  | .call .time _ => t = endMs
  | _ => True

variable {env startMs endMs stepMs t}

theorem TopOperator.matchesInstant_iff [ExtendedOrder F64] {e : Expr F64}
    (h : TopOperator (MatchesInstant env startMs endMs stepMs t) e) :
    MatchesInstant env startMs endMs stepMs t e ↔ Settled env startMs endMs stepMs t e := by
  cases h with
  | @setOp lhs rhs hl hr op hop modifier =>
    show Agree (Except.map _ ((evalExpr _ _ lhs).bind fun lhs => (evalExpr _ _ rhs).bind fun rhs =>
      evalBinaryResult _ op modifier lhs rhs)) ((evalExpr _ _ lhs).bind fun lhs =>
        (evalExpr _ _ rhs).bind fun rhs => evalBinaryResult _ op modifier lhs rhs) ↔ _
    rw [Settled]
    rcases agree_atTime_cases hl with ⟨e, hx, hy⟩ | ⟨r, i, hx, hy, hri⟩
    · rw [hx, hy]
      exact iff_of_true (Agree.of_eq rfl) nofun
    rcases agree_atTime_cases hr with ⟨e, hx', hy'⟩ | ⟨r', i', hx', hy', hri'⟩
    · rw [hx, hy, hx', hy']
      exact iff_of_true (Agree.of_eq rfl) nofun
    rw [hx, hy, hx', hy']
    refine (hri.setOp_agree_iff hop env.debugStr modifier hri').trans ?_
    exact ⟨fun h l r hl hr => Except.ok.inj hl ▸ Except.ok.inj hr ▸ h, fun h => h _ _ rfl rfl⟩
  | @rank e param he hparam op hop modifier =>
    show Agree (Except.map _ ((evalExpr _ _ e).bind fun inner =>
      (Except.map some (evalExpr _ _ param)).bind fun param => evalAggregation op modifier inner param))
        ((evalExpr _ _ e).bind fun inner => (Except.map some (evalExpr _ _ param)).bind fun param =>
          evalAggregation op modifier inner param) ↔ _
    rw [Settled]
    rcases agree_atTime_cases he with ⟨e, hx, hy⟩ | ⟨r, i, hx, hy, hri⟩
    · rw [hx, hy]
      exact iff_of_true (Agree.of_eq rfl) nofun
    rcases agree_atTime_cases hparam with ⟨e, hx', hy'⟩ | ⟨p, p', hx', hy', hp⟩
    · rw [hx, hy, hx', hy']
      exact iff_of_true (Agree.of_eq rfl) nofun
    rw [hx, hy, hx', hy']
    refine (hri.rank_agree_iff hop modifier hp).trans ?_
    refine ⟨fun h r i p hr hi hp => ?_, fun h => h _ _ _ rfl rfl rfl⟩
    rw [← Except.ok.inj hr, ← Except.ok.inj hi, ← Except.ok.inj hp]
    exact h
  | @absent e he args =>
    show Agree (Except.map _ (Except.map _ (evalExpr _ _ e))) (Except.map _ (evalExpr _ _ e)) ↔ _
    rw [Settled]
    rcases agree_atTime_cases he with ⟨e, hx, hy⟩ | ⟨r, i, hx, hy, hri⟩
    · rw [hx, hy]
      exact iff_of_true (Agree.of_eq rfl) nofun
    rw [hx, hy]
    exact hri.absent_agree_iff.trans
      ⟨fun h r hr => Except.ok.inj hr ▸ h, fun h => h _ rfl⟩
  | @vector e he args =>
    show Agree (Except.map _ (Except.map _ (evalExpr _ _ e))) (Except.map _ (evalExpr _ _ e)) ↔ _
    rw [Settled]
    rcases agree_atTime_cases he with ⟨e, hx, hy⟩ | ⟨r, i, hx, hy, hri⟩
    · rw [hx, hy]
      exact iff_of_true (Agree.of_eq rfl) nofun
    rw [hx, hy]
    exact hri.vector_agree_iff.trans
      ⟨fun h r hr => Except.ok.inj hr ▸ h, fun h => h _ rfl⟩
  | time args =>
    show Agree (.ok ((single endMs (seconds endMs)).atTime t)) (.ok (single t (seconds t))) ↔ _
    rw [Settled]
    exact single_agree_iff fun h => by rw [h]

/-- **A range query with such an operator at the top** agrees at a step with the instant query
exactly when its decision for the range is the one for the step, given operands that agree. -/
theorem evaluateRange_topOperator_iff [ExtendedOrder F64]
    (parse : String → Except String (Expr F64)) {query : String} {e : Expr F64}
    (hparse : parse query = .ok e)
    (he : TopOperator (MatchesInstant env startMs endMs stepMs t) e) :
    Agree ((evaluateRange parse query env startMs endMs stepMs).map (PromQLResult.atTime t))
        (evaluateInstant parse query env t) ↔
      Settled env startMs endMs stepMs t e := by
  rw [evaluateRange, evaluateInstant, hparse]
  exact he.matchesInstant_iff

/-- Operands that are evaluated time by time agree at every step. -/
theorem Pointwise.matchesInstant {e : Expr F64} (h : Pointwise e) (hstep : 0 < stepMs)
    (ht : t ∈ stepTimes startMs endMs stepMs) : MatchesInstant env startMs endMs stepMs t e :=
  Agree.of_eq (h.stepwise.atTime hstep ht)

end Expressions

/-! ### A series that goes stale -/

/-- `last_over_time(a[1m]) and last_over_time(b[1m])`. -/
def lastBoth : Expr ℤ :=
  .binary .and (.call (.overTime .last) [.matrixSelector ⟨some "a", [], none, none⟩ 60000000000])
    (.call (.overTime .last) [.matrixSelector ⟨some "b", [], none, none⟩ 60000000000]) none

/-- Both metrics are there at 30 s, only the first at 120 s. -/
def staleEnv : Env VecRodeo ℕ ℤ := Env.ofOps
  [.ingestSamples "a" [] [⟨30000, 1, 0⟩, ⟨120000, 2, 0⟩], .ingestSamples "b" [] [⟨30000, 5, 0⟩]]

/-- At the first step both are there. -/
theorem evaluateRange_topOperator_iff_lastBoth :
    Agree ((evaluateRange (fun _ => .ok lastBoth) "" staleEnv 60000 120000 60000).map
        (PromQLResult.atTime 60000))
      (evaluateInstant (fun _ => .ok lastBoth) "" staleEnv 60000) := by
  have hmem : (60000 : ℤ) ∈ stepTimes 60000 120000 60000 := by decide
  have hop : TopOperator (MatchesInstant staleEnv 60000 120000 60000 60000) lastBoth :=
    .setOp ((Pointwise.overTime .last _ _ []).matchesInstant (by decide) hmem)
      ((Pointwise.overTime .last _ _ []).matchesInstant (by decide) hmem) rfl none
  refine (evaluateRange_topOperator_iff (fun _ => .ok lastBoth) rfl hop).mpr fun l r hl hr => ?_
  obtain rfl := Except.ok.inj hl
  obtain rfl := Except.ok.inj hr
  exact fun ls _ _ => by obtain rfl := List.mem_singleton.mp ‹_›; rfl

/-- At the second the first metric is still reported, and the instant query gives nothing. -/
theorem not_agree_lastBoth :
    ¬ Agree ((evaluateRange (fun _ => .ok lastBoth) "" staleEnv 60000 120000 60000).map
        (PromQLResult.atTime 120000))
      (evaluateInstant (fun _ => .ok lastBoth) "" staleEnv 120000) := by
  show ¬ List.Perm [(⟨[], [(120000, (2 : ℤ))]⟩ : SeriesResult ℤ)] []
  decide

end PromQL

end Aniani
