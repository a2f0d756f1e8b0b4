import Aniani.Query.Binary64
import Aniani.Query.PromQL.Lookback
import Aniani.Store.Batching

/-!
# The `@` modifier

A selector with `@ T` is to be read in a window that ends at `T` less the offset, whatever the time
of evaluation. The matrix selector and the range branch of the vector selector do that from 1970 on,
and read an earlier `T` as 1970. The functions of a matrix selector read the modifier nowhere, so
their windows end at the time of evaluation less the offset; the instant branch of the vector
selector reads one second past `T`.

The modifier is honoured where the window that is read has the same samples as the one asked for.
Two windows with other samples can still come to the same sum or count, so of one store that is as
much as can be said. But where a time lies in one of the windows only, a series with samples there
shows it, and then the modifier is not honoured in every store.

## Main definitions

* `SelectorForm` — the expressions that take a selector
* `SelectorForm.asked`, `SelectorForm.read` — the window asked for, and the one that is read
* `SelectorForm.Honours` — the value is that of the window asked for
* `SelectorForm.SameAt`, `SelectorForm.Inert` — the condition

## Main results

* `SelectorForm.honours_iff` — **when the modifier is honoured**
-/

namespace Aniani

namespace PromQL

variable {F64 : Type}

/-! ### Expressions that take a selector -/

/-- The functions of the windows of a matrix selector. The parameter of `quantile_over_time` comes
with its value. -/
inductive WindowFunc (F64 : Type) where
  | rateLike (f : RateFunc)
  | overTime (f : OverTimeFunc)
  | changesOrResets (f : CountFunc)
  | quantileOverTime (quantile : Expr F64) (value : F64)

/-- The expressions that take a selector. -/
inductive SelectorForm (F64 : Type) where
  | windows (f : WindowFunc F64) (range : ℕ)
  | absentOverTime (range : ℕ)
  | matrix (range : ℕ)
  | vector

/-- The expression, on a selector. -/
def SelectorForm.expr (form : SelectorForm F64) (vs : VectorSelector) : Expr F64 :=
  match form with
  | .windows (.rateLike f) range => .call (.rateLike f) [.matrixSelector vs range]
  | .windows (.overTime f) range => .call (.overTime f) [.matrixSelector vs range]
  | .windows (.changesOrResets f) range => .call (.changesOrResets f) [.matrixSelector vs range]
  | .windows (.quantileOverTime quantile _) range =>
    .call .quantileOverTime [quantile, .matrixSelector vs range]
  | .absentOverTime range => .call .absentOverTime [.matrixSelector vs range]
  | .matrix range => .matrixSelector vs range
  | .vector => .vectorSelector vs

section Forms

variable [FloatOps F64] {Rodeo Spur : Type} [LinearOrder Spur] [Interner Rodeo Spur]

/-- What the function makes of a window. -/
def WindowFunc.compute (f : WindowFunc F64) (rangeMs : ℤ) : List (Sample F64) → Option F64 :=
  match f with
  | .rateLike f => computeRateLike f rangeMs
  | .overTime f => computeOverTime f
  | .changesOrResets f => computeChangesOrResets f
  | .quantileOverTime _ value => PromQL.quantileOverTime value

/-- Nothing is made of an empty window. -/
theorem WindowFunc.compute_nil (f : WindowFunc F64) (rangeMs : ℤ) : f.compute rangeMs [] = none := by
  cases f <;> rfl

/-- The parameter has its value at every time. -/
def SelectorForm.ConstantParam (env : Env Rodeo Spur F64) (form : SelectorForm F64) : Prop :=
  match form with
  | .windows (.quantileOverTime quantile value) _ =>
    ∀ times, evalExpr env times quantile = .ok (.scalar value)
  | _ => True

/-- The times in a window. -/
def timesIn (window : ℤ × ℤ) : Set ℤ := Set.Icc i64Min i64Max ∩ Set.Icc window.1 window.2

namespace SelectorForm

section Windows

variable (form : SelectorForm F64) (vs : VectorSelector)

/-- The length of a window. -/
def lengthMs : ℤ :=
  match form with
  | .windows _ range | .absentOverTime range | .matrix range => durationToI64Ms range
  | .vector => lookbackMs

/-- The ends of the window that `@ T` asks for, with `T` in milliseconds. -/
def asked (T : ℤ) : ℤ × ℤ :=
  (T - offsetToMs vs.offset - form.lengthMs, T - offsetToMs vs.offset)

/-- The time that is taken for the end, before the offset: the functions of a matrix selector take
the time of evaluation `t`, the selectors what `at_to_ms` makes of the `time` in the modifier. -/
def evalTime (time t : ℤ) : ℤ :=
  match form with
  | .windows _ _ | .absentOverTime _ => t
  | .matrix _ | .vector => durationToI64Ms time.toNat

/-- The ends of the window that an instant query or a range query reads. -/
def read (time t : ℤ) (instant : Bool) : ℤ × ℤ :=
  let stop := effectiveTime vs (form.evalTime time t)
  (i64SaturatingSub stop form.lengthMs, match form, instant with
    | .vector, true => i64SaturatingAdd stop forwardBufferMs
    | _, _ => stop)

/-- The minute before 23:59 of 31 December 1969 is asked for, and the one after it is read. -/
example :
    (asked (.matrix 60000000000 : SelectorForm ℤ) ⟨some "up", [], none, none⟩ (-60000),
      read (.matrix 60000000000 : SelectorForm ℤ) ⟨some "up", [], none, none⟩ (-60000000000) 0
        false) = ((-120000, -60000), (-60000, 0)) := by decide

/-- A time is in the windows that are read exactly if it is in the one asked for. -/
def SameAt (time t x : ℤ) : Prop :=
  ∀ instant, x ∈ Set.Icc (form.read vs time t instant).1 (form.read vs time t instant).2 ↔
    x ∈ Set.Icc (form.asked vs (time / 1000000)).1 (form.asked vs (time / 1000000)).2

/-- The function makes nothing of any window: the quantile is none, or it is a rate and no window
has two times. -/
def Inert (time t : ℤ) : Prop :=
  match form with
  | .windows (.quantileOverTime _ value) _ => inUnitInterval value = false
  | .windows (.rateLike f) _ => f ≠ .delta ∧ (timesIn (form.read vs time t false)).Subsingleton ∧
      (timesIn (form.asked vs (time / 1000000))).Subsingleton
  | _ => False

end Windows

variable (form : SelectorForm F64) (env : Env Rodeo Spur F64) (vs : VectorSelector)

/-- What is reported at `t` of some samples of each series. -/
def result (t : ℤ) (samples : ℕ → List (Sample F64)) : PromQLResult F64 :=
  match form with
  | .windows f range => report env vs t fun sid => f.compute (durationToI64Ms range) (samples sid)
  | .absentOverTime _ => .instantVector
      (if (env.selectSeries (vsMatchers vs)).any fun sid => !(samples sid).isEmpty then []
        else [⟨[], [(t, FloatOps.one)]⟩])
  | .matrix _ => .rangeVector ((env.selectSeries (vsMatchers vs)).filterMap fun sid =>
      seriesOf (env.labels sid) ((samples sid).map fun s => (s.timestampMs, s.value)))
  | .vector => report env vs t fun sid => lastValue (samples sid)

/-- The same of the samples in a window. -/
def resultIn (t : ℤ) (window : ℤ × ℤ) : PromQLResult F64 :=
  form.result env vs t fun sid => env.store.window sid window.1 window.2

/-- What an outcome reports at a time. The samples of a matrix selector keep their own times, so all
of them count. -/
def reportedAt (t : ℤ) (outcome : Outcome F64) : Outcome F64 :=
  match form with
  | .matrix _ => outcome
  | _ => outcome.map (PromQLResult.atTime t)

variable {form env vs}

/-! ### Evaluating them -/

theorem evalExpr_windows {f : WindowFunc F64} {range : ℕ}
    (hparam : (SelectorForm.windows f range).ConstantParam env) (times : Times) :
    evalExpr env times ((SelectorForm.windows f range).expr vs) =
      .ok (evalWindows env times vs (durationToI64Ms range) (f.compute (durationToI64Ms range))) := by
  cases f with
  | rateLike f => rfl
  | overTime f => rfl
  | changesOrResets f => rfl
  | quantileOverTime quantile value =>
    show (evalScalarArg (evalExpr env times quantile) _).bind _ = _
    rw [hparam times]
    rfl

theorem absent_atTime {rangeMs t : ℤ} {times : Times} (ht : t ∈ times.points) :
    (evalAbsent env times vs rangeMs).atTime t =
      .instantVector (if anyPresent env vs rangeMs t then [] else [⟨[], [(t, FloatOps.one)]⟩]) := by
  rw [evalAbsent_result, Reading.atTime_result (times.points_sorted.imp ne_of_lt) ht]
  show PromQLResult.instantVector (render [t] [_]) = _
  rw [render, List.filterMap_cons, Row.series]
  cases h : anyPresent env vs rangeMs t <;> simp [h, Signal.sample, seriesOf]

/-- No window ends before it starts. -/
theorem saturatingSub_le {length : ℤ} (h : 0 ≤ length) (stop offset : ℤ) :
    i64SaturatingSub (i64SaturatingSub stop offset) length ≤ i64SaturatingSub stop offset := by
  unfold i64SaturatingSub i64Min i64Max
  omega

/-- The times of an instant query or of a range query. -/
def queryTimes (startMs endMs stepMs t : ℤ) (instant : Bool) : Times :=
  if instant then Times.ofInstant t else Times.ofRange startMs endMs stepMs

/-- **What is reported at a step** is that of the window that is read. -/
theorem reportedAt_evalExpr (hsorted : env.store.Sorted) (hparam : form.ConstantParam env)
    {time : ℤ} (hat : vs.atModifier = some (.time time)) {startMs endMs stepMs t : ℤ}
    (hstep : 0 < stepMs) (ht : t ∈ stepTimes startMs endMs stepMs) (instant : Bool) :
    form.reportedAt t (evalExpr env (queryTimes startMs endMs stepMs t instant) (form.expr vs)) =
      .ok (form.resultIn env vs t (form.read vs time t instant)) := by
  have hpoints : t ∈ (queryTimes startMs endMs stepMs t instant).points := by
    cases instant with
    | true => exact List.mem_singleton_self t
    | false => rwa [queryTimes, if_neg Bool.false_ne_true, Times.points_ofRange hstep]
  have hatMs (startMs endMs : ℤ) :
      atToMs vs.atModifier startMs endMs = some (durationToI64Ms time.toNat) := by
    rw [hat]
    rfl
  cases form with
  | windows f range =>
    show (evalExpr _ _ _).map _ = _
    rw [evalExpr_windows hparam]
    show Except.ok ((evalWindows _ _ _ _ _).atTime t) = _
    rw [evalWindows_atTime _ _ hpoints]
    simp only [windowSamples_of_sorted hsorted]
    rfl
  | absentOverTime range =>
    show Except.ok ((evalAbsent _ _ _ _).atTime t) = _
    rw [absent_atTime hpoints, anyPresent]
    simp only [windowSamples_of_sorted hsorted]
    rfl
  | matrix range =>
    show Except.ok (evalMatrixSelector _ _ _ _) = _
    rw [evalMatrixSelector, hatMs]
    simp only [env.samples_of_sorted hsorted _ (saturatingSub_le (durationToI64Ms_mem range).1 _ _)]
    rfl
  | vector =>
    have hlookback := saturatingSub_le (show 0 ≤ lookbackMs by decide)
      (durationToI64Ms time.toNat) (offsetToMs vs.offset)
    cases instant with
    | true =>
      show Except.ok ((evalVectorSelector _ (Times.ofInstant t) _).atTime t) = _
      rw [evalVectorSelector_ofInstant, report_atTime, hatMs]
      refine congrArg Except.ok (congrArg (report env vs t) (funext fun sid => ?_))
      refine congrArg lastValue (env.samples_of_sorted hsorted sid (hlookback.trans ?_))
      show i64SaturatingSub (durationToI64Ms time.toNat) _ ≤
        i64SaturatingAdd (i64SaturatingSub (durationToI64Ms time.toNat) _) _
      unfold i64SaturatingAdd i64SaturatingSub forwardBufferMs i64Min i64Max
      omega
    | false =>
      show Except.ok ((evalVectorSelector _ (Times.ofRange _ _ _) _).atTime t) = _
      rw [evalVectorSelector_ofRange hstep ht, hatMs]
      refine congrArg Except.ok (congrArg (report env vs t) (funext fun sid => ?_))
      exact congrArg lastValue (env.samples_of_sorted hsorted sid hlookback)

/-- The range query at a step and the instant query at that time both report what the window asked
for holds. -/
def Honours (form : SelectorForm F64) (parse : String → Except String (Expr F64)) (query : String)
    (env : Env Rodeo Spur F64) (vs : VectorSelector) (time startMs endMs stepMs t : ℤ) : Prop :=
  Agree (form.reportedAt t (evaluateRange parse query env startMs endMs stepMs))
      (.ok (form.resultIn env vs t (form.asked vs (time / 1000000)))) ∧
    Agree (form.reportedAt t (evaluateInstant parse query env t))
      (.ok (form.resultIn env vs t (form.asked vs (time / 1000000))))

theorem honours_iff_read (parse : String → Except String (Expr F64)) {query : String}
    (hparse : parse query = .ok (form.expr vs)) (hsorted : env.store.Sorted)
    (hparam : form.ConstantParam env) {time : ℤ} (hat : vs.atModifier = some (.time time))
    {startMs endMs stepMs t : ℤ} (hstep : 0 < stepMs) (ht : t ∈ stepTimes startMs endMs stepMs) :
    form.Honours parse query env vs time startMs endMs stepMs t ↔
      ∀ instant, Agree (.ok (form.resultIn env vs t (form.read vs time t instant)))
        (.ok (form.resultIn env vs t (form.asked vs (time / 1000000)))) := by
  have hrange := reportedAt_evalExpr hsorted hparam hat hstep ht false
  have hinstant := reportedAt_evalExpr hsorted hparam hat hstep ht true
  rw [Honours, evaluateRange, evaluateInstant, hparse]
  rw [queryTimes, if_neg Bool.false_ne_true] at hrange
  rw [queryTimes, if_pos rfl] at hinstant
  rw [Bool.forall_bool, ← hrange, ← hinstant]

/-- The result depends on the samples of the selected series. -/
theorem result_congr {samples samples' : ℕ → List (Sample F64)}
    (h : ∀ sid ∈ env.selectSeries (vsMatchers vs), samples sid = samples' sid) (t : ℤ) :
    form.result env vs t samples = form.result env vs t samples' := by
  cases form with
  | windows f range =>
    refine congrArg PromQLResult.instantVector (List.filterMap_congr fun sid hsid => ?_)
    simp only [h sid hsid]
  | absentOverTime range =>
    have hany : ((env.selectSeries (vsMatchers vs)).any fun sid => !(samples sid).isEmpty) =
        (env.selectSeries (vsMatchers vs)).any fun sid => !(samples' sid).isEmpty := by
      rw [Bool.eq_iff_iff, List.any_eq_true, List.any_eq_true]
      exact exists_congr fun sid => and_congr_right fun hsid => by rw [h sid hsid]
    rw [result, result, hany]
  | matrix range =>
    refine congrArg PromQLResult.rangeVector (List.filterMap_congr fun sid hsid => ?_)
    simp only [h sid hsid]
  | vector =>
    refine congrArg PromQLResult.instantVector (List.filterMap_congr fun sid hsid => ?_)
    simp only [h sid hsid]

/-- **Windows with the same samples** give the same result. -/
theorem resultIn_congr {window window' : ℤ × ℤ}
    (h : ∀ sid ∈ env.selectSeries (vsMatchers vs), ∀ s ∈ env.store.entriesOf sid,
      (s.timestampMs ∈ Set.Icc window.1 window.2 ↔ s.timestampMs ∈ Set.Icc window'.1 window'.2))
    (t : ℤ) : form.resultIn env vs t window = form.resultIn env vs t window' :=
  result_congr
    (fun sid hsid => List.filter_congr fun s hs => decide_eq_decide.mpr (h sid hsid s hs)) t

end SelectorForm

/-! ### One series -/

section Pushed

variable (env : Env Rodeo Spur F64) (name : String) (labels : List (String × String))
  (samples : List (Sample F64))

/-- The environment with a store into which one series was pushed. -/
def Env.pushed : Env Rodeo Spur F64 :=
  { env with
    store := Run.exec MetricStore.apply MetricStore.new [.ingestSamples name labels samples] }

omit [FloatOps F64] in
theorem Env.sorted_pushed : (env.pushed name labels samples).store.Sorted :=
  MetricStore.sorted_exec _

omit [FloatOps F64] in
theorem Env.toLabelStore_pushed : (env.pushed name labels samples).store.toLabelStore =
    (LabelStore.new : LabelStore Rodeo Spur (Sample F64)).ingest (("__name__", name) :: labels)
      samples := rfl

omit [FloatOps F64] in
theorem Env.entriesOf_pushed (sid : ℕ) : (env.pushed name labels samples).store.entriesOf sid =
    if sid = 0 then samples.sortByKey Sample.timestampMs else [] := by
  rw [env.toLabelStore_pushed, LabelStore.ingest_of_none (Finmap.lookup_empty _),
    LabelStore.entriesOf]
  show Option.getD (Option.map Stream.entries (Finmap.lookup sid
    (Finmap.insert 0 (_ : Stream Spur (Sample F64)) (∅ : FxHashMap ℕ _)))) [] = _
  rw [Finmap.lookup_insert_eq_ite]
  split_ifs with hsid
  · exact LabelStore.appendBatch_eq (List.sortedBy_nil _) samples
  · rfl

omit [FloatOps F64] in
/-- Whether the series is selected does not depend on its samples. -/
theorem Env.selectSeries_pushed (ms : List LabelMatcher) :
    (env.pushed name labels samples).selectSeries ms =
      (env.pushed name labels []).selectSeries ms := by
  have hkeys (stream stream' : Stream Spur (Sample F64)) :
      (Finmap.insert 0 stream (∅ : FxHashMap ℕ (Stream Spur (Sample F64)))).keys =
        (Finmap.insert 0 stream' (∅ : FxHashMap ℕ (Stream Spur (Sample F64)))).keys := by
    ext id
    rw [Finmap.mem_keys, Finmap.mem_keys, Finmap.mem_insert, Finmap.mem_insert]
  show LabelStore.select _ _ _ (env.pushed name labels samples).store.toLabelStore ms =
    LabelStore.select _ _ _ (env.pushed name labels []).store.toLabelStore ms
  rw [env.toLabelStore_pushed, env.toLabelStore_pushed,
    LabelStore.ingest_of_none (Finmap.lookup_empty _),
    LabelStore.ingest_of_none (Finmap.lookup_empty _), LabelStore.select, LabelStore.select]
  exact congrArg (fun ids => selectIndexedIds _ _ _ _ _ ids ms)
    (congrArg env.it.order (hkeys _ _))

end Pushed

/-! ### What shows of a window -/

/-- Lengths of time that are tested for being positive. -/
class SpanTests (F64 : Type) [FloatOps F64] : Prop where
  of_pos : ∀ {ms : ℤ}, 0 < ms → FloatOps.le (seconds ms : F64) Float64.zero = false ∧
    FloatOps.lt Float64.zero (seconds ms : F64) = true
  of_zero : FloatOps.le (seconds 0 : F64) Float64.zero = true ∧
    FloatOps.lt Float64.zero (seconds 0 : F64) = false

/-- Something is reported of the samples of a series. -/
def SelectorForm.Shows (form : SelectorForm F64) (samples : List (Sample F64)) : Prop :=
  match form with
  | .windows f range => (f.compute (durationToI64Ms range) samples).isSome
  | _ => samples ≠ []

omit [FloatOps F64] in
theorem Agree.symm {a b : Outcome F64} (h : Agree a b) : Agree b a := by
  match a, b with
  | .ok (.instantVector _), .ok (.instantVector _) => exact List.Perm.symm h
  | .ok (.rangeVector _), .ok (.rangeVector _) => exact List.Perm.symm h
  | .ok (.scalar _), .ok (.scalar _) | .error _, .error _ =>
    exact Agree.of_eq (show _ = _ from h).symm
  | .ok (.instantVector _), .ok (.rangeVector _) | .ok (.instantVector _), .ok (.scalar _)
  | .ok (.rangeVector _), .ok (.instantVector _) | .ok (.rangeVector _), .ok (.scalar _)
  | .ok (.scalar _), .ok (.instantVector _) | .ok (.scalar _), .ok (.rangeVector _)
  | .ok (.instantVector _), .error _ | .ok (.rangeVector _), .error _ | .ok (.scalar _), .error _
  | .error _, .ok (.instantVector _) | .error _, .ok (.rangeVector _) | .error _, .ok (.scalar _) =>
    exact Agree.of_eq (show _ = _ from h).symm

namespace SelectorForm

variable {form : SelectorForm F64} {env : Env Rodeo Spur F64} {vs : VectorSelector}

omit [FloatOps F64] [LinearOrder Spur] [Interner Rodeo Spur] in
/-- A list with something in it is no permutation of one with nothing. -/
theorem not_filterMap_perm {α β : Type} {l : List α} {g g' : α → Option β} {a : α} (ha : a ∈ l)
    (h : (g a).isSome) (h' : ∀ b, g' b = none) : ¬ (l.filterMap g).Perm (l.filterMap g') := by
  intro hperm
  rw [List.filterMap_eq_nil_iff.mpr fun b _ => h' b] at hperm
  obtain ⟨b, hb⟩ := Option.isSome_iff_exists.mp h
  exact absurd (hperm.mem_iff.mp (List.mem_filterMap.mpr ⟨a, ha, hb⟩)) List.not_mem_nil

omit [FloatOps F64] in
theorem isSome_seriesOf {labels : SeriesLabelSet} {samples : List (ℤ × F64)} :
    (seriesOf labels samples).isSome ↔ samples ≠ [] := by
  cases samples with
  | nil => simp [seriesOf]
  | cons s samples => simp [seriesOf]

/-- A series that shows in one result, where none shows in the other. -/
theorem not_agree_of_shows {samples samples' : ℕ → List (Sample F64)} {sid : ℕ}
    (hsid : sid ∈ env.selectSeries (vsMatchers vs)) (h : form.Shows (samples sid))
    (h' : ∀ i, ¬ form.Shows (samples' i)) (t : ℤ) :
    ¬ Agree (.ok (form.result env vs t samples)) (.ok (form.result env vs t samples')) := by
  cases form with
  | windows f range =>
    have hnone (i : ℕ) : f.compute (durationToI64Ms range) (samples' i) = none :=
      Option.not_isSome_iff_eq_none.mp (h' i)
    refine not_filterMap_perm hsid (Option.isSome_map.trans h) fun i => ?_
    exact congrArg (Option.map _) (hnone i)
  | absentOverTime range =>
    have hempty (i : ℕ) : samples' i = [] := not_not.mp (h' i)
    have hany : ((env.selectSeries (vsMatchers vs)).any fun sid => !(samples sid).isEmpty) = true :=
      List.any_eq_true.mpr ⟨sid, hsid, by
        rw [List.isEmpty_eq_false_iff.mpr (show samples sid ≠ [] from h)]; rfl⟩
    have hnone : ((env.selectSeries (vsMatchers vs)).any fun sid => !(samples' sid).isEmpty) =
        false := List.any_eq_false.mpr fun i _ => by simp [hempty i]
    rw [result, result, hany, hnone]
    exact fun hperm => absurd (show List.Perm [] [_] from hperm).length_eq (by simp)
  | matrix range =>
    have hempty (i : ℕ) : samples' i = [] := not_not.mp (h' i)
    refine not_filterMap_perm hsid (isSome_seriesOf.mpr ?_) fun i => ?_
    · exact fun hnil => h (List.map_eq_nil_iff.mp hnil)
    · exact congrArg (fun l : List (Sample F64) =>
        seriesOf (env.labels i) (l.map fun s => (s.timestampMs, s.value))) (hempty i)
  | vector =>
    have hempty (i : ℕ) : samples' i = [] := not_not.mp (h' i)
    have hlast : (lastValue (samples sid)).isSome := by
      rw [lastValue, List.getLast?_eq_some_getLast h]
      rfl
    refine not_filterMap_perm hsid (Option.isSome_map.trans hlast) fun i => ?_
    exact congrArg (fun l => (lastValue l).map _) (hempty i)

/-- Where nothing shows of any window, the results are the same. -/
theorem result_of_not_shows {f : WindowFunc F64} {range : ℕ}
    {samples samples' : ℕ → List (Sample F64)}
    (h : ∀ i, ¬ (SelectorForm.windows f range).Shows (samples i))
    (h' : ∀ i, ¬ (SelectorForm.windows f range).Shows (samples' i)) (t : ℤ) :
    (SelectorForm.windows f range).result env vs t samples =
      (SelectorForm.windows f range).result env vs t samples' := by
  have heq (i : ℕ) : f.compute (durationToI64Ms range) (samples i) =
      f.compute (durationToI64Ms range) (samples' i) :=
    (Option.not_isSome_iff_eq_none.mp (h i)).trans (Option.not_isSome_iff_eq_none.mp (h' i)).symm
  refine congrArg PromQLResult.instantVector (List.filterMap_congr fun i _ => ?_)
  exact congrArg (Option.map _) (heq i)

/-- A sample at a time. -/
def sampleAt (x : ℤ) : Sample F64 := ⟨x, Float64.zero, 0⟩

/-- A sample is enough for a function that is no rate. -/
theorem shows_singleton (hrate : ∀ f range, form ≠ .windows (.rateLike f) range)
    (hquantile : ∀ quantile value range, form = .windows (.quantileOverTime quantile value) range →
      inUnitInterval value = true) (s : Sample F64) : form.Shows [s] := by
  cases form with
  | windows f range =>
    cases f with
    | rateLike f => exact absurd rfl (hrate f range)
    | overTime f => cases f <;> rfl
    | changesOrResets f => rfl
    | quantileOverTime quantile value =>
      show (quantileOverTime value [s]).isSome
      rw [quantileOverTime, hquantile quantile value range rfl]
      rfl
  | absentOverTime range => exact List.cons_ne_nil s []
  | matrix range => exact List.cons_ne_nil s []
  | vector => exact List.cons_ne_nil s []

theorem not_shows_nil : ¬ form.Shows [] := by
  cases form with
  | windows f range => cases f <;> simp [Shows, WindowFunc.compute_nil]
  | absentOverTime range => simp [Shows]
  | matrix range => simp [Shows]
  | vector => simp [Shows]

/-- A rate takes two samples. -/
theorem not_shows_of_length_lt {f : RateFunc} {range : ℕ} {samples : List (Sample F64)}
    (h : samples.length < 2) : ¬ (SelectorForm.windows (.rateLike f) range).Shows samples := by
  show ¬ (computeRateLike f _ samples).isSome
  rw [computeRateLike, if_pos h]
  simp

/-- **Two samples** make a rate if they are apart in time, and a difference anyhow. -/
theorem shows_pair [SpanTests F64] {f : RateFunc} (hderiv : f ≠ .deriv) {range : ℕ}
    {a b : Sample F64} (h : f = .delta ∨ a.timestampMs < b.timestampMs) :
    (SelectorForm.windows (.rateLike f) range).Shows [a, b] := by
  show (computeRateLike f _ [a, b]).isSome
  cases f with
  | delta => rfl
  | deriv => exact absurd rfl hderiv
  | rate =>
    have hspan := @SpanTests.of_pos F64 _ _ _ (sub_pos.mpr (h.resolve_left (by simp)))
    simp [computeRateLike, hspan.1]
  | increase =>
    have hspan := @SpanTests.of_pos F64 _ _ _ (sub_pos.mpr (h.resolve_left (by simp)))
    simp [computeRateLike, hspan.1]
  | irate =>
    have hspan := @SpanTests.of_pos F64 _ _ _ (sub_pos.mpr (h.resolve_left (by simp)))
    simp [computeRateLike, windows2, hspan.2]

/-- Samples of one time make no rate. -/
theorem not_shows_of_same_time [SpanTests F64] {f : RateFunc} (hderiv : f ≠ .deriv)
    (hdelta : f ≠ .delta) {range : ℕ} {samples : List (Sample F64)}
    (h : ∀ a ∈ samples, ∀ b ∈ samples, a.timestampMs = b.timestampMs) :
    ¬ (SelectorForm.windows (.rateLike f) range).Shows samples := by
  obtain ⟨hle, hlt⟩ := @SpanTests.of_zero F64 _ _
  intro hshows
  have hsome : (computeRateLike f (durationToI64Ms range) samples).isSome := hshows
  rw [computeRateLike] at hsome
  split at hsome
  · simp at hsome
  cases hfirst : samples.head? with
  | none => simp [hfirst] at hsome
  | some first =>
  cases hlast : samples.getLast? with
  | none => simp [hlast] at hsome
  | some last =>
  have hspan : last.timestampMs - first.timestampMs = 0 := sub_eq_zero.mpr
    (h last (List.mem_of_getLast? hlast) first (List.mem_of_mem_head? hfirst))
  cases f with
  | delta => exact hdelta rfl
  | deriv => exact hderiv rfl
  | rate => simp [hfirst, hlast, hspan, hle] at hsome
  | increase => simp [hfirst, hlast, hspan, hle] at hsome
  | irate =>
    cases hpair : (windows2 samples).getLast? with
    | none => simp [hfirst, hlast, hpair] at hsome
    | some pair =>
      have hmem := List.mem_of_getLast? hpair
      have hspan : pair.2.timestampMs - pair.1.timestampMs = 0 := sub_eq_zero.mpr
        (h pair.2 (List.mem_of_mem_tail (List.of_mem_zip hmem).2) pair.1 (List.of_mem_zip hmem).1)
      simp [hfirst, hlast, hpair, hspan, hlt] at hsome

/-- The samples of a window. -/
def within (window : ℤ × ℤ) (samples : List (Sample F64)) : List (Sample F64) :=
  samples.filter fun s => decide (window.1 ≤ s.timestampMs ∧ s.timestampMs ≤ window.2)

omit [FloatOps F64] in
theorem window_pushed {samples : List (Sample F64)}
    (hsorted : samples.SortedBy Sample.timestampMs) (name : String)
    (labels : List (String × String)) (window : ℤ × ℤ) (sid : ℕ) :
    (env.pushed name labels samples).store.window sid window.1 window.2 =
      if sid = 0 then within window samples else [] := by
  rw [LabelStore.window, env.entriesOf_pushed]
  split_ifs with hsid
  · rw [List.sortByKey_of_sortedBy hsorted]
    rfl
  · rfl

/-- Samples of a selected series that show in one window and not in another. -/
theorem not_agree_pushed {name : String} {labels : List (String × String)}
    (hsel : 0 ∈ (env.pushed name labels []).selectSeries (vsMatchers vs))
    {samples : List (Sample F64)} (hsorted : samples.SortedBy Sample.timestampMs)
    {window window' : ℤ × ℤ} (h : form.Shows (within window samples))
    (h' : ¬ form.Shows (within window' samples)) (t : ℤ) :
    ¬ Agree (.ok (form.resultIn (env.pushed name labels samples) vs t window))
      (.ok (form.resultIn (env.pushed name labels samples) vs t window')) := by
  have hsid : 0 ∈ (env.pushed name labels samples).selectSeries (vsMatchers vs) := by
    rwa [env.selectSeries_pushed]
  refine not_agree_of_shows hsid ?_ (fun i => ?_) t
  · rwa [window_pushed hsorted, if_pos rfl]
  · rw [window_pushed hsorted]
    split_ifs with hi
    · exact h'
    · exact not_shows_nil

omit [FloatOps F64] [LinearOrder Spur] [Interner Rodeo Spur] in
/-- Two sets of times, one of which has a time that the other has not and one of which has two, do
not have the same pairs. -/
theorem exists_pair {I P Q : Set ℤ} {x y z : ℤ} (hx : x ∈ I) (hy : y ∈ I) (hz : z ∈ I)
    (hP : x ∈ P) (hQ : x ∉ Q) (hne : y ≠ z) (h : (y ∈ P ∧ z ∈ P) ∨ (y ∈ Q ∧ z ∈ Q)) :
    ∃ u ∈ I, ∃ v ∈ I, u < v ∧ ((u ∈ P ∧ v ∈ P) ∧ ¬ (u ∈ Q ∧ v ∈ Q) ∨
      (u ∈ Q ∧ v ∈ Q) ∧ ¬ (u ∈ P ∧ v ∈ P)) := by
  suffices ∃ u ∈ I, ∃ v ∈ I, u ≠ v ∧ ((u ∈ P ∧ v ∈ P) ∧ ¬ (u ∈ Q ∧ v ∈ Q) ∨
      (u ∈ Q ∧ v ∈ Q) ∧ ¬ (u ∈ P ∧ v ∈ P)) by
    obtain ⟨u, hu, v, hv, hne, hpair⟩ := this
    rcases lt_or_gt_of_ne hne with hlt | hgt
    · exact ⟨u, hu, v, hv, hlt, hpair⟩
    · exact ⟨v, hv, u, hu, hgt, by rwa [and_comm (a := v ∈ P), and_comm (a := v ∈ Q)]⟩
  rcases h with ⟨hyP, hzP⟩ | ⟨hyQ, hzQ⟩
  · by_cases hxy : x = y
    · exact ⟨x, hx, z, hz, hxy ▸ hne, .inl ⟨⟨hP, hzP⟩, fun hboth => hQ hboth.1⟩⟩
    · exact ⟨x, hx, y, hy, hxy, .inl ⟨⟨hP, hyP⟩, fun hboth => hQ hboth.1⟩⟩
  · by_cases hyP : y ∈ P
    · exact ⟨x, hx, y, hy, fun hxy => hQ (hxy ▸ hyQ), .inl ⟨⟨hP, hyP⟩, fun hboth => hQ hboth.1⟩⟩
    · exact ⟨y, hy, z, hz, hne, .inr ⟨⟨hyQ, hzQ⟩, fun hboth => hyP hboth.1⟩⟩

theorem shows_within_pair [SpanTests F64] {f : RateFunc} (hderiv : f ≠ .deriv) {range : ℕ}
    {u v : ℤ} (huv : u < v) (window : ℤ × ℤ) :
    (SelectorForm.windows (.rateLike f) range).Shows
        (within window [(sampleAt u : Sample F64), sampleAt v]) ↔
      u ∈ Set.Icc window.1 window.2 ∧ v ∈ Set.Icc window.1 window.2 := by
  constructor
  · intro hshows
    by_contra hboth
    refine not_shows_of_length_lt ?_ hshows
    by_contra hlength
    have hall := List.filter_eq_self.mp (List.filter_sublist.eq_of_length_le (not_lt.mp hlength))
    exact hboth ⟨of_decide_eq_true (hall (sampleAt u) List.mem_cons_self),
      of_decide_eq_true (hall (sampleAt v) (List.mem_cons_of_mem _ List.mem_cons_self))⟩
  · rintro ⟨hu, hv⟩
    have hall :
        within window [(sampleAt u : Sample F64), sampleAt v] = [sampleAt u, sampleAt v] := by
      refine List.filter_eq_self.mpr fun s hs => decide_eq_true ?_
      rcases List.mem_pair.mp hs with rfl | rfl
      · exact hu
      · exact hv
    rw [hall]
    exact shows_pair hderiv (.inr huv)

/-- Samples that show in the one window or the other. -/
def Distinguishes (form : SelectorForm F64) (window window' : ℤ × ℤ) (samples : List (Sample F64)) :
    Prop :=
  samples.SortedBy Sample.timestampMs ∧ (∀ s ∈ samples, s.timestampMs ∈ Set.Icc i64Min i64Max) ∧
    (form.Shows (within window samples) ∧ ¬ form.Shows (within window' samples) ∨
      form.Shows (within window' samples) ∧ ¬ form.Shows (within window samples))

/-- **A time in one of two windows** lets samples there tell them apart. -/
theorem exists_distinguishes [SpanTests F64] {window window' : ℤ × ℤ}
    (hrates : ∀ f range, form = .windows (.rateLike f) range → f ≠ .deriv ∧
      (f = .delta ∨ ¬ ((timesIn window).Subsingleton ∧ (timesIn window').Subsingleton)))
    (hquantile : ∀ quantile value range, form = .windows (.quantileOverTime quantile value) range →
      inUnitInterval value = true) {x : ℤ} (hx : x ∈ Set.Icc i64Min i64Max)
    (hin : x ∈ Set.Icc window.1 window.2) (hout : x ∉ Set.Icc window'.1 window'.2) :
    ∃ samples, form.Distinguishes window window' samples := by
  have hwithin (samples : List (Sample F64)) (hall : ∀ s ∈ samples, s.timestampMs = x) :
      within window samples = samples ∧ within window' samples = [] :=
    ⟨List.filter_eq_self.mpr fun s hs => decide_eq_true (hall s hs ▸ hin),
      List.filter_eq_nil_iff.mpr fun s hs => by
        rw [decide_eq_true_eq]; exact hall s hs ▸ hout⟩
  by_cases hrate : ∃ f range, form = .windows (.rateLike f) range
  · obtain ⟨f, range, rfl⟩ := hrate
    obtain ⟨hderiv, hdelta | htwo⟩ := hrates f range rfl
    · -- two samples at the time
      obtain ⟨hleft, hright⟩ := hwithin [sampleAt x, sampleAt x] (by simp [sampleAt])
      refine ⟨[sampleAt x, sampleAt x], by simp [List.SortedBy], by simpa [sampleAt] using hx,
        .inl ?_⟩
      rw [hleft, hright]
      exact ⟨shows_pair hderiv (.inl hdelta), not_shows_nil⟩
    · -- samples at two times that are both in one window only
      obtain ⟨y, hy, z, hz, hne, hpair⟩ : ∃ y ∈ Set.Icc i64Min i64Max, ∃ z ∈ Set.Icc i64Min i64Max,
          y ≠ z ∧ ((y ∈ Set.Icc window.1 window.2 ∧ z ∈ Set.Icc window.1 window.2) ∨
            (y ∈ Set.Icc window'.1 window'.2 ∧ z ∈ Set.Icc window'.1 window'.2)) := by
        rcases not_and_or.mp htwo with hmany | hmany
        · obtain ⟨y, hy, z, hz, hne⟩ := Set.not_subsingleton_iff.mp hmany
          exact ⟨y, hy.1, z, hz.1, hne, .inl ⟨hy.2, hz.2⟩⟩
        · obtain ⟨y, hy, z, hz, hne⟩ := Set.not_subsingleton_iff.mp hmany
          exact ⟨y, hy.1, z, hz.1, hne, .inr ⟨hy.2, hz.2⟩⟩
      obtain ⟨u, hu, v, hv, huv, hcases⟩ := exists_pair hx hy hz hin hout hne hpair
      refine ⟨[sampleAt u, sampleAt v], by simpa [List.SortedBy, sampleAt] using huv.le,
        by simpa [sampleAt] using ⟨hu, hv⟩, ?_⟩
      rwa [shows_within_pair hderiv huv, shows_within_pair hderiv huv]
  · have hrate (f : RateFunc) (range : ℕ) : form ≠ .windows (.rateLike f) range :=
      fun hform => hrate ⟨f, range, hform⟩
    obtain ⟨hleft, hright⟩ := hwithin [sampleAt x] (by simp [sampleAt])
    refine ⟨[sampleAt x], List.pairwise_singleton _ _, by simpa [sampleAt] using hx, .inl ?_⟩
    rw [hleft, hright]
    exact ⟨shows_singleton hrate hquantile _, not_shows_nil⟩

/-- A function that makes nothing of any window has the same result of all. -/
theorem resultIn_of_inert [SpanTests F64]
    (hderiv : ∀ range, form ≠ .windows (.rateLike .deriv) range) {time t : ℤ}
    (hinert : form.Inert vs time t) {name : String} {labels : List (String × String)}
    {samples : List (Sample F64)}
    (hsamples : ∀ s ∈ samples, s.timestampMs ∈ Set.Icc i64Min i64Max) (instant : Bool) :
    form.resultIn (env.pushed name labels samples) vs t (form.read vs time t instant) =
      form.resultIn (env.pushed name labels samples) vs t (form.asked vs (time / 1000000)) := by
  have hmem {window : ℤ × ℤ} {i : ℕ} {s : Sample F64}
      (hs : s ∈ (env.pushed name labels samples).store.window i window.1 window.2) :
      s.timestampMs ∈ timesIn window := by
    obtain ⟨hs, htime⟩ := List.mem_filter.mp hs
    rw [env.entriesOf_pushed] at hs
    split_ifs at hs
    · exact ⟨hsamples s (List.mem_sortByKey.mp hs), of_decide_eq_true htime⟩
    · exact absurd hs List.not_mem_nil
  match form, hinert with
  | .windows (.quantileOverTime quantile value) range, hinert =>
    have hnone (l : List (Sample F64)) :
        ¬ (SelectorForm.windows (.quantileOverTime quantile value) range).Shows l := by
      show ¬ (quantileOverTime value l).isSome
      rw [quantileOverTime, show inUnitInterval value = false from hinert]
      simp
    exact result_of_not_shows (fun _ => hnone _) (fun _ => hnone _) t
  | .windows (.rateLike f) range, ⟨hdelta, hread, hasked⟩ =>
    have hf : f ≠ .deriv := fun hf => hderiv range (hf ▸ rfl)
    refine result_of_not_shows (fun i => ?_) (fun i => ?_) t
    · exact not_shows_of_same_time hf hdelta fun a ha b hb =>
        hread (hmem (i := i) ha) (hmem (i := i) hb)
    · exact not_shows_of_same_time hf hdelta fun a ha b hb => hasked (hmem ha) (hmem hb)

/-- **When the modifier is honoured**: where the windows that are read have the samples of the one
asked for. In the store of one series that is selected it is honoured whatever its samples are
exactly if the windows have the same times, or the function makes nothing of them; `deriv` is left
out here, as it makes nothing of samples whose times are rounded to one. -/
theorem honours_iff [SpanTests F64] (parse : String → Except String (Expr F64)) {query : String}
    (hparse : parse query = .ok (form.expr vs)) {time : ℤ}
    (hat : vs.atModifier = some (.time time)) {startMs endMs stepMs : ℤ} (hstep : 0 < stepMs)
    (hend : endMs ≤ i64Max) (n : ℕ) (ht : startMs + n * stepMs ≤ endMs) :
    (∀ env : Env Rodeo Spur F64, env.store.Sorted → form.ConstantParam env →
      (∀ sid ∈ env.selectSeries (vsMatchers vs), ∀ s ∈ env.store.entriesOf sid,
        form.SameAt vs time (startMs + n * stepMs) s.timestampMs) →
      form.Honours parse query env vs time startMs endMs stepMs (startMs + n * stepMs)) ∧
    ∀ (env : Env Rodeo Spur F64) (name : String) (labels : List (String × String)),
      0 ∈ (env.pushed name labels []).selectSeries (vsMatchers vs) →
      (∀ samples, form.ConstantParam (env.pushed name labels samples)) →
      (∀ range, form ≠ .windows (.rateLike .deriv) range) →
      ((∀ samples : List (Sample F64),
          (∀ s ∈ samples, s.timestampMs ∈ Set.Icc i64Min i64Max) →
          form.Honours parse query (env.pushed name labels samples) vs time startMs endMs stepMs
            (startMs + n * stepMs)) ↔
        form.Inert vs time (startMs + n * stepMs) ∨
          ∀ x ∈ Set.Icc i64Min i64Max, form.SameAt vs time (startMs + n * stepMs) x) := by
  have hmem := (mem_stepTimes hstep hend).mpr ⟨n, rfl, ht⟩
  generalize startMs + n * stepMs = t at hmem ⊢
  refine ⟨fun env hsorted hparam hsame => ?_, fun env name labels hsel hparam hderiv => ?_⟩
  · rw [honours_iff_read parse hparse hsorted hparam hat hstep hmem]
    exact fun instant => Agree.of_eq (congrArg Except.ok
      (resultIn_congr (fun sid hsid s hs => hsame sid hsid s hs instant) t))
  · have hiff (samples : List (Sample F64)) := honours_iff_read parse hparse
      (env.sorted_pushed name labels samples) (hparam samples) hat hstep hmem
    constructor
    · intro hall
      by_contra hcond
      rw [not_or] at hcond
      obtain ⟨hinert, hsame⟩ := hcond
      simp only [not_forall] at hsame
      obtain ⟨x, hx, hsame⟩ := hsame
      obtain ⟨instant, hdiffer⟩ := not_forall.mp hsame
      have hquantile (quantile : Expr F64) (value : F64) (range : ℕ)
          (hform : form = .windows (.quantileOverTime quantile value) range) :
          inUnitInterval value = true := by
        subst hform
        exact Bool.not_eq_false _ ▸ hinert
      have hrates (f : RateFunc) (range : ℕ) (hform : form = .windows (.rateLike f) range) :
          f ≠ .deriv ∧ (f = .delta ∨ ¬ ((timesIn (form.read vs time t instant)).Subsingleton ∧
            (timesIn (form.asked vs (time / 1000000))).Subsingleton)) := by
        subst hform
        refine ⟨fun hf => hderiv range (hf ▸ rfl), or_iff_not_imp_left.mpr fun hdelta hsingle => ?_⟩
        exact hinert ⟨hdelta, hsingle⟩
      have hdone {samples : List (Sample F64)} (hsamples : form.Distinguishes
          (form.read vs time t instant) (form.asked vs (time / 1000000)) samples) : False := by
        obtain ⟨hsorted, hrange, hshows⟩ := hsamples
        have hagree := (hiff samples).mp (hall samples hrange) instant
        rcases hshows with ⟨h, h'⟩ | ⟨h, h'⟩
        · exact not_agree_pushed hsel hsorted h h' t hagree
        · exact not_agree_pushed hsel hsorted h h' t hagree.symm
      by_cases hin : x ∈ Set.Icc (form.read vs time t instant).1 (form.read vs time t instant).2
      · have hout : x ∉ Set.Icc (form.asked vs (time / 1000000)).1
            (form.asked vs (time / 1000000)).2 := fun hasked => hdiffer (iff_of_true hin hasked)
        obtain ⟨samples, hsamples⟩ := exists_distinguishes hrates hquantile hx hin hout
        exact hdone hsamples
      · have hasked : x ∈ Set.Icc (form.asked vs (time / 1000000)).1
            (form.asked vs (time / 1000000)).2 := by
          by_contra hout
          exact hdiffer (iff_of_false hin hout)
        obtain ⟨samples, hsorted, hrange, hshows⟩ := exists_distinguishes
          (fun f range hform => (hrates f range hform).imp_right (Or.imp_right (mt And.symm)))
          hquantile hx hasked hin
        exact hdone ⟨hsorted, hrange, hshows.symm⟩
    · rintro (hinert | hsame) samples hsamples
      · rw [hiff]
        exact fun instant => Agree.of_eq (congrArg Except.ok
          (resultIn_of_inert hderiv hinert hsamples instant))
      · rw [hiff]
        refine fun instant => Agree.of_eq (congrArg Except.ok (resultIn_congr ?_ t))
        intro sid _ s hs
        rw [env.entriesOf_pushed] at hs
        split_ifs at hs
        · exact hsame _ (hsamples s (List.mem_sortByKey.mp hs)) instant
        · exact absurd hs List.not_mem_nil

end SelectorForm

end Forms

/-! ### The spans of `f64` -/

theorem Double.le_zero_of_zero_lt {a : Double} (h : Double.lt Float64.zero a = true) :
    FloatOps.le a Float64.zero = false := by
  obtain ⟨_, hzero⟩ := Double.zero_eq
  refine Bool.or_eq_false_iff.mpr ⟨?_, Double.beq_of_lt h⟩
  rw [hzero] at h ⊢
  cases a with
  | finite x hx =>
    have hpos : (0 : ℚ) < x := of_decide_eq_true h
    exact decide_eq_false hpos.le.not_gt
  | infinite negative => exact (Bool.not_eq_true' _).mp h
  | nan => rfl

theorem Double.ofI64_thousand : ∃ h, (Float64.ofI64 1000 : Double) = .finite (1000 : ℤ) h := by
  have hvalue : Binary64.value (Float64.ofI64 1000 : Double) = some ((1000 : ℤ) : ℚ) :=
    Binary64.value_ofI64_small (by decide)
  exact Double.exists_of_value_eq_some hvalue

instance : SpanTests Double where
  of_pos {ms} hpos := by
    suffices hlt : Double.lt Float64.zero (seconds ms) = true from
      ⟨Double.le_zero_of_zero_lt hlt, hlt⟩
    obtain ⟨_, hthousand⟩ := Double.ofI64_thousand
    have hone : (2 : ℚ) ^ (0 : ℤ) ≤ (ms : ℚ) := by
      rw [zpow_zero]
      exact_mod_cast hpos
    rw [seconds, hthousand]
    show Double.lt _ (Double.div (Double.ofRat ms) _) = true
    rcases Double.ofRat_cases (ms : ℚ) with ⟨_, hms⟩ | hms
    · have hnearest := BinaryFormat.two_zpow_le_nearest (f := binary64) (by decide) (by decide) hone
      rw [hms, Double.div, if_neg (by norm_num)]
      refine Double.zero_lt_ofRat (e := -10) (by decide) ?_
      rw [le_div_iff₀ (by norm_num)]
      exact le_trans (by norm_num) hnearest
    · obtain ⟨_, hzero⟩ := Double.zero_eq
      rw [hms, decide_eq_false (not_lt.mpr (Int.cast_nonneg hpos.le)), hzero]
      norm_num [Double.div, Double.lt]
  of_zero := by
    obtain ⟨_, hzero⟩ := Double.zero_eq
    obtain ⟨_, hthousand⟩ := Double.ofI64_thousand
    have hnone : (seconds 0 : Double) = Float64.zero := by
      have hnum : (Float64.ofI64 0 : Double) = Float64.zero := congrArg Double.ofRat Int.cast_zero
      rw [seconds, hthousand, hnum, hzero]
      show Double.div _ _ = _
      rw [Double.div, if_neg (by norm_num), zero_div]
      exact hzero
    rw [hnone, hzero]
    exact ⟨by simp [FloatOps.le, Double.lt, Double.beq], by simp [FloatOps.lt, Double.lt]⟩

/-! ### A series of one sample -/

/-- `up @ 60`, to be read a minute back. -/
def upAtMinute : VectorSelector := ⟨some "up", [], none, some (.time 60000000000)⟩

section Minute

variable (F64 : Type) [FloatOps F64]

/-- `last_over_time(…[1m])`. -/
def lastOfMinute : SelectorForm F64 := .windows (.overTime .last) 60000000000

/-- No series. -/
def emptyEnv : Env VecRodeo ℕ F64 where
  store := MetricStore.new
  it := .ascending ℕ
  itValues := .ascending ℕ
  regexNew _ := none
  debugStr s := s

/-- One series, with one sample at 60 s. -/
def minuteEnv : Env VecRodeo ℕ F64 := (emptyEnv F64).pushed "up" [] [⟨60000, Float64.ofI64 7, 0⟩]

end Minute

/-- At 90 s the sample is in the minute that is read too, but a later one would be. -/
theorem SelectorForm.honours_iff_lastOfMinute :
    (lastOfMinute Double).Honours (fun _ => .ok ((lastOfMinute Double).expr upAtMinute)) ""
      (minuteEnv Double) upAtMinute 60000000000 60000 120000 30000 (60000 + (1 : ℕ) * 30000) ∧
    ¬ ∀ samples : List (Sample Double), (∀ s ∈ samples, s.timestampMs ∈ Set.Icc i64Min i64Max) →
      (lastOfMinute Double).Honours (fun _ => .ok ((lastOfMinute Double).expr upAtMinute)) ""
        ((emptyEnv Double).pushed "up" [] samples) upAtMinute 60000000000 60000 120000 30000
        (60000 + (1 : ℕ) * 30000) := by
  obtain ⟨hread, hexact⟩ := @SelectorForm.honours_iff Double _ VecRodeo ℕ _ _
    (lastOfMinute Double) upAtMinute _ (fun _ => .ok ((lastOfMinute Double).expr upAtMinute)) "" rfl
    60000000000 rfl 60000 120000 30000 (by decide) (by decide) 1 (by decide)
  constructor
  · refine hread _ ((emptyEnv Double).sorted_pushed _ _ _) trivial fun sid _ s hs => ?_
    rw [minuteEnv, Env.entriesOf_pushed] at hs
    split_ifs at hs
    · obtain rfl := List.mem_singleton.mp (List.mem_sortByKey.mp hs)
      intro instant
      cases instant <;> decide
    · exact absurd hs List.not_mem_nil
  · intro hall
    obtain hinert | hsame := (hexact (emptyEnv Double) "up" [] (by decide) (fun _ => trivial)
      (fun range h => by simp [lastOfMinute] at h)).mp hall
    · exact hinert
    · exact absurd ((hsame 90000 (by decide) true).mp (by decide)) (by decide)

/-- Ten minutes later the window at the time of evaluation is empty. -/
theorem SelectorForm.not_honours_lastOfMinute :
    ¬ (lastOfMinute ℤ).Honours (fun _ => .ok ((lastOfMinute ℤ).expr upAtMinute)) "" (minuteEnv ℤ)
      upAtMinute 60000000000 660000 660000 30000 660000 := by
  rintro ⟨-, h⟩
  have hperm : List.Perm [] [(⟨[("__name__", "up")], [(660000, (7 : ℤ))]⟩ : SeriesResult ℤ)] := h
  exact absurd hperm (by decide)

end PromQL

end Aniani
