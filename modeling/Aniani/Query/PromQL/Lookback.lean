import Aniani.ForMathlib.KeyedPerm
import Aniani.Query.PromQL.Stepwise
import Aniani.Store.Identity

/-!
# The lookback window

A vector selector reports the newest sample of the five minutes before the time of evaluation. In an
instant query the window ends one second after that time (`forward_buffer_ms`); in a range query it
ends at that time. So the two differ when a series has a sample in the second after a step.

## Main definitions

* `report` — the series of a selector, with a value each at one time
* `lookbackValue`, `bufferedValue` — what the two branches report of a series

## Main results

* `agree_report_iff` — two reports are the same when their values are
* `evalVectorSelector_ofRange`, `evalVectorSelector_ofInstant`
* `vectorSelector_agrees_iff` — **when the two branches agree at a step**
-/

namespace Aniani

namespace PromQL

variable {Rodeo Spur F64 : Type} [LinearOrder Spur] [Interner Rodeo Spur]

/-! ### Reports at one time -/

section Report

variable (env : Env Rodeo Spur F64) (vs : VectorSelector)

/-- The series of a selector, with a value each at one time. -/
def report (t : ℤ) (value : ℕ → Option F64) : PromQLResult F64 :=
  .instantVector ((env.selectSeries (vsMatchers vs)).filterMap fun sid =>
    (value sid).map fun v => ⟨env.labels sid, [(t, v)]⟩)

theorem report_eq (t : ℤ) (value : ℕ → ℤ → Option F64) :
    .instantVector (render [t] ((env.selectSeries (vsMatchers vs)).map fun sid =>
      ⟨env.labels sid, value sid⟩)) = report env vs t fun sid => value sid t := by
  rw [report, render, List.filterMap_map]
  exact congrArg _ (List.filterMap_congr fun sid _ => seriesOf_singleton _ _ _)

/-- The values of the series of each label set are the same. -/
def SameValues (value value' : ℕ → Option F64) : Prop :=
  List.SameValues env.labels (env.selectSeries (vsMatchers vs)) value value'

variable {env vs}

theorem agree_report_iff {t : ℤ} {value value' : ℕ → Option F64} :
    Agree (.ok (report env vs t value)) (.ok (report env vs t value')) ↔
      SameValues env vs value value' := by
  have hf (labels : SeriesLabelSet) :
      Function.Injective fun v : F64 => (⟨labels, [(t, v)]⟩ : SeriesResult F64) := by
    intro v v' h
    simpa using h
  have hkey (labels : SeriesLabelSet) (v : F64) :
      SeriesResult.labels (⟨labels, [(t, v)]⟩ : SeriesResult F64) = labels := rfl
  exact List.perm_keyed_iff hf hkey

omit [LinearOrder Spur] [Interner Rodeo Spur] in
/-- A series that is not there has no samples. -/
theorem samples_of_notMem {sid : ℕ} (h : sid ∉ env.store.streams) (startMs endMs : ℤ) :
    env.samples sid startMs endMs = [] := by
  show (env.store.getRange sid startMs endMs).getD [] = []
  rw [LabelStore.getRange, Finmap.lookup_eq_none.mpr h]
  rfl

/-- Under the invariant of the store no two live series have one label set. -/
theorem labels_injOn (h : env.store.Indexed) {sid sid' : ℕ} (hsid : sid ∈ env.store.streams)
    (hsid' : sid' ∈ env.store.streams) (hlabels : env.labels sid = env.labels sid') :
    sid = sid' := by
  obtain ⟨stream, hst⟩ := Finmap.mem_iff.mp hsid
  obtain ⟨stream', hst'⟩ := Finmap.mem_iff.mp hsid'
  have hget : env.store.getStreamLabels sid = some (env.labels sid) := by
    rw [Env.labels, LabelStore.getStreamLabels, hst]
    rfl
  have hget' : env.store.getStreamLabels sid' = some (env.labels sid) := by
    rw [hlabels, Env.labels, LabelStore.getStreamLabels, hst']
    rfl
  exact h.eq_of_getStreamLabels hget hget'

/-- Then the values are the same series by series, if only live series have one. -/
theorem sameValues_iff (h : env.store.Indexed) {value value' : ℕ → Option F64}
    (hdead : ∀ sid, sid ∉ env.store.streams → value sid = none ∧ value' sid = none) :
    SameValues env vs value value' ↔
      ∀ sid ∈ env.selectSeries (vsMatchers vs), value sid = value' sid := by
  have hlive (sid : ℕ) (hsome : (value sid).isSome ∨ (value' sid).isSome) :
      sid ∈ env.store.streams := by
    by_contra hmem
    obtain ⟨hnone, hnone'⟩ := hdead sid hmem
    rw [hnone, hnone'] at hsome
    exact hsome.elim nofun nofun
  exact List.sameValues_iff fun sid _ sid' _ hsid hsid' => labels_injOn h (hlive sid hsid)
    (hlive sid' hsid')

theorem report_atTime (t : ℤ) (value : ℕ → Option F64) :
    (report env vs t value).atTime t = report env vs t value := by
  rw [← report_eq env vs t fun sid _ => value sid, PromQLResult.atTime,
    seriesAt_render (List.nodup_singleton t) (List.mem_singleton_self t)]

/-- A function of the windows of a selector, at one of the times of the query. -/
theorem evalWindows_atTime (rangeMs : ℤ) (f : List (Sample F64) → Option F64) {times : Times}
    {t : ℤ} (ht : t ∈ times.points) :
    (evalWindows env times vs rangeMs f).atTime t =
      report env vs t fun sid => f (windowSamples env vs rangeMs sid t) := by
  rw [evalWindows_result, Reading.atTime_result (times.points_sorted.imp ne_of_lt) ht,
    Reading.result]
  exact report_eq env vs t fun sid t => f (windowSamples env vs rangeMs sid t)

end Report

/-! ### Vector selectors -/

section VectorSelector

variable (env : Env Rodeo Spur F64) (vs : VectorSelector)

/-- The end of the window of an evaluation. -/
def effectiveTime (t : ℤ) : ℤ := i64SaturatingSub t (offsetToMs vs.offset)

/-- What a range query reports of a series. -/
def lookbackValue (t : ℤ) (sid : ℕ) : Option F64 :=
  lastValue (env.samples sid (i64SaturatingSub (effectiveTime vs t) lookbackMs)
    (effectiveTime vs t))

/-- What an instant query reports of a series. -/
def bufferedValue (t : ℤ) (sid : ℕ) : Option F64 :=
  lastValue (env.samples sid (i64SaturatingSub (effectiveTime vs t) lookbackMs)
    (i64SaturatingAdd (effectiveTime vs t) forwardBufferMs))

/-- What an instant query sees and a range query does not: the newest value of a series within the
second after the time of evaluation. -/
def newerValue (t : ℤ) (sid : ℕ) : Option F64 :=
  lastValue (env.store.window sid (effectiveTime vs t + 1)
    (i64SaturatingAdd (effectiveTime vs t) forwardBufferMs))

variable {env vs}

theorem evalVectorSelector_ofInstant (t : ℤ) :
    evalVectorSelector env (Times.ofInstant t) vs =
      report env vs t (bufferedValue env vs ((atToMs vs.atModifier t t).getD t)) := rfl

theorem evalVectorSelector_ofRange {startMs endMs stepMs t : ℤ} (hstep : 0 < stepMs)
    (ht : t ∈ stepTimes startMs endMs stepMs) :
    (evalVectorSelector env (Times.ofRange startMs endMs stepMs) vs).atTime t =
      report env vs t (lookbackValue env vs ((atToMs vs.atModifier startMs endMs).getD t)) := by
  have hinstant : (Times.ofRange startMs endMs stepMs).isInstant = false := by
    show (false || stepMs == 0) = false
    simpa using hstep.ne'
  let rows : List (Row F64) := (env.selectSeries (vsMatchers vs)).map fun sid =>
    ⟨env.labels sid, fun t =>
      lookbackValue env vs ((atToMs vs.atModifier startMs endMs).getD t) sid⟩
  have heval : evalVectorSelector env (Times.ofRange startMs endMs stepMs) vs =
      .instantVector (render (stepTimes startMs endMs stepMs) rows) := by
    rw [evalVectorSelector, hinstant, render, List.filterMap_map]
    rfl
  rw [heval, PromQLResult.atTime, seriesAt_render ((stepTimes_sorted _ _ _).imp ne_of_lt) ht]
  exact report_eq env vs t fun sid t =>
    lookbackValue env vs ((atToMs vs.atModifier startMs endMs).getD t) sid

omit [LinearOrder Spur] [Interner Rodeo Spur] in
theorem lastValue_append (samples newer : List (Sample F64)) :
    lastValue (samples ++ newer) = (lastValue newer).or (lastValue samples) := by
  unfold lastValue
  rw [List.getLast?_append]
  cases newer.getLast? <;> rfl

omit [LinearOrder Spur] [Interner Rodeo Spur] in
/-- A sorted series, cut at the end of the lookback window. -/
theorem bufferedValue_of_sorted (h : env.store.Sorted) (t : ℤ) (sid : ℕ) :
    bufferedValue env vs t sid =
      (newerValue env vs t sid).or (lookbackValue env vs t sid) := by
  have hlo : i64SaturatingSub (effectiveTime vs t) lookbackMs ≤ effectiveTime vs t := by
    unfold effectiveTime i64SaturatingSub lookbackMs i64Min i64Max
    omega
  have hhi : effectiveTime vs t ≤ i64SaturatingAdd (effectiveTime vs t) forwardBufferMs := by
    unfold effectiveTime i64SaturatingSub i64SaturatingAdd forwardBufferMs i64Min i64Max
    omega
  rw [bufferedValue, newerValue, lookbackValue, Env.samples_of_sorted h sid (hlo.trans hhi),
    Env.samples_of_sorted h sid hlo]
  generalize i64SaturatingSub (effectiveTime vs t) lookbackMs = lo at hlo ⊢
  generalize i64SaturatingAdd (effectiveTime vs t) forwardBufferMs = hi at hhi ⊢
  generalize effectiveTime vs t = mid at hlo hhi ⊢
  have hsplit := ((env.store.sortedBy_entriesOf h sid).sublist
    (List.filter_sublist (p := fun s => decide (lo ≤ timestamp s ∧ timestamp s ≤ hi)))
      ).filter_le_append_filter_lt mid
  rw [LabelStore.window, ← hsplit, lastValue_append, List.filter_filter, List.filter_filter]
  congr 2
  · refine List.filter_congr fun s _ => ?_
    rw [Bool.eq_iff_iff, Bool.and_eq_true]
    simp only [decide_eq_true_eq]
    omega
  · refine List.filter_congr fun s _ => ?_
    rw [Bool.eq_iff_iff, Bool.and_eq_true]
    simp only [decide_eq_true_eq]
    omega

end VectorSelector

/-! ### The two branches -/

/-- **The two branches agree at a step** exactly when the newest value of the lookback window is the
newest one of the window with the buffer, label set by label set; under the invariant of the store,
exactly when no selected series has a newer value in the second after it that is another one. -/
theorem vectorSelector_agrees_iff [FloatOps F64] (parse : String → Except String (Expr F64))
    {query : String} (env : Env Rodeo Spur F64) {vs : VectorSelector}
    (hparse : parse query = .ok (.vectorSelector vs)) (hat : vs.atModifier = none)
    {startMs endMs stepMs : ℤ} (hstep : 0 < stepMs) (hend : endMs ≤ i64Max) (n : ℕ)
    (ht : startMs + n * stepMs ≤ endMs) :
    (Agree ((evaluateRange parse query env startMs endMs stepMs).map
        (PromQLResult.atTime (startMs + n * stepMs)))
        (evaluateInstant parse query env (startMs + n * stepMs)) ↔
      SameValues env vs (lookbackValue env vs (startMs + n * stepMs))
        (bufferedValue env vs (startMs + n * stepMs))) ∧
    (env.store.Indexed →
      (Agree ((evaluateRange parse query env startMs endMs stepMs).map
          (PromQLResult.atTime (startMs + n * stepMs)))
          (evaluateInstant parse query env (startMs + n * stepMs)) ↔
        ∀ sid ∈ env.selectSeries (vsMatchers vs), ∀ v,
          newerValue env vs (startMs + n * stepMs) sid = some v →
            lookbackValue env vs (startMs + n * stepMs) sid = some v)) := by
  have hmem := (mem_stepTimes hstep hend).mpr ⟨n, rfl, ht⟩
  generalize startMs + n * stepMs = t at ht hmem ⊢
  have hiff : Agree ((evaluateRange parse query env startMs endMs stepMs).map
      (PromQLResult.atTime t)) (evaluateInstant parse query env t) ↔
        SameValues env vs (lookbackValue env vs t) (bufferedValue env vs t) := by
    rw [evaluateRange, evaluateInstant, hparse, ← agree_report_iff (t := t)]
    show Agree (.ok ((evalVectorSelector env (Times.ofRange startMs endMs stepMs) vs).atTime t))
      (.ok (evalVectorSelector env (Times.ofInstant t) vs)) ↔ _
    rw [evalVectorSelector_ofRange hstep hmem, evalVectorSelector_ofInstant, hat]
    rfl
  refine ⟨hiff, fun hindexed => hiff.trans ?_⟩
  have hdead (sid : ℕ) (hsid : sid ∉ env.store.streams) :
      lookbackValue env vs t sid = none ∧ bufferedValue env vs t sid = none := by
    rw [lookbackValue, bufferedValue, samples_of_notMem hsid, samples_of_notMem hsid]
    exact ⟨rfl, rfl⟩
  rw [sameValues_iff hindexed hdead]
  refine forall₂_congr fun sid _ => ?_
  rw [bufferedValue_of_sorted fun id stream hst => hindexed.sorted hst]
  cases newerValue env vs t sid with
  | none => simp
  | some v => simp

/-- The plain selector of one metric. -/
def upSelector : VectorSelector := ⟨some "up", [], none, none⟩

/-- One series, scraped at 1 s and half a second later. -/
def upEnv : Env VecRodeo ℕ ℤ := Env.ofOps [.ingestSamples "up" [] [⟨1000, 1, 0⟩, ⟨1500, 0, 0⟩]]

theorem vectorSelector_agrees_iff_up :
    Agree ((evaluateRange (fun _ => .ok (.vectorSelector upSelector)) "up" upEnv 1000 2000 1000).map
        (PromQLResult.atTime (1000 + (1 : ℕ) * 1000)))
      (evaluateInstant (fun _ => .ok (.vectorSelector upSelector)) "up" upEnv
        (1000 + (1 : ℕ) * 1000)) := by
  have hindexed : upEnv.store.Indexed :=
    (MetricStore.invariant_exec LabelStore.invariant_new (by decide)).toIndexed
  refine ((vectorSelector_agrees_iff (fun _ => .ok (.vectorSelector upSelector)) upEnv rfl rfl
    (by decide) (by decide) 1 (by decide)).2 hindexed).mpr fun sid hsid v hv => ?_
  obtain rfl := List.mem_singleton.mp (show sid ∈ [0] from hsid)
  exact absurd (show none = some v from hv) (by simp)

/-- At 1 s a range query reports the first scrape and an instant query the second. -/
theorem vectorSelector_disagrees_up :
    ¬ Agree ((evaluateRange (fun _ => .ok (.vectorSelector upSelector)) "up" upEnv 1000 2000
        1000).map (PromQLResult.atTime 1000))
      (evaluateInstant (fun _ => .ok (.vectorSelector upSelector)) "up" upEnv 1000) := by
  show ¬ List.Perm [(⟨[("__name__", "up")], [(1000, (1 : ℤ))]⟩ : SeriesResult ℤ)]
    [⟨[("__name__", "up")], [(1000, 0)]⟩]
  decide

end PromQL

end Aniani
