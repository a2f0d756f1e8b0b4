import Aniani.ForMathlib.Tiling
import Aniani.Query.StepCap

/-!
# Arithmetic on times that overflows

The times of a LogQL request are scaled with multiplications that saturate, the window of a step
starts at a difference that saturates, and the loop leaves off where the next time does not fit. The
hour that an instant query looks back is taken off its time with a plain `-`.

A build that checks the arithmetic panics where an operation overflows; a release build wraps
around.

## Main definitions

* `checkedSub`, `checkedDiv` — the plain operators in a build that checks them
* `Request.checked` — what the handlers hand to the evaluator in such a build
* `Request.Early` — an instant query with a time less than an hour after the first one of an `i64`

## Main results

* `Request.checked_eq` — where a request overflows, and what it is elsewhere
* `Request.stays_iff` — all the arithmetic stays within an `i64`, but for the early requests
-/

namespace Aniani

namespace LogQL

open Combinator (exists_of_bind_eq_ok)
open PromQL (stepTimes)

/-! ### Operators that are checked -/

/-- What ends a request in a build that checks the arithmetic. -/
inductive Stop where
  | refused (refusal : Refusal)
  | overflow
  deriving DecidableEq

/-- The value of an operator, if an `i64` holds it. -/
def fits (n : ℤ) : Except Stop ℤ := if i64Min ≤ n ∧ n ≤ i64Max then .ok n else .error .overflow

/-- `-`. -/
def checkedSub (a b : ℤ) : Except Stop ℤ := fits (a - b)

/-- `/`, by something other than zero. -/
def checkedDiv (a b : ℤ) : Except Stop ℤ := fits (a.tdiv b)

theorem fits_of_mem {n : ℤ} (h : n ∈ Set.Icc i64Min i64Max) : fits n = .ok n := if_pos h

theorem mem_of_fits {n m : ℤ} (h : fits n = .ok m) : m ∈ Set.Icc i64Min i64Max := by
  rw [fits] at h
  split_ifs at h with hmem
  obtain rfl := Except.ok.inj h
  exact hmem

section Handlers

variable (F64 : Type) [FloatOps F64] (clock : ℕ)

/-- `instantWindow`, in a build that checks the arithmetic. -/
def checkedInstantWindow (time : Option String) : Except Stop (ℤ × ℤ) :=
  match time with
  | none => do return (← checkedSub (nowNs clock) hourNs, nowNs clock)
  | some t =>
    match parseTimestampNs F64 t with
    | some ns => do return (← checkedSub ns hourNs, ns)
    | none => .error (.refused (.error ("invalid time: " ++ t)))

/-- The start of a range query, which is an hour ago if none is given. -/
def checkedStart (start : Option String) : Except Stop ℤ :=
  match start with
  | none => checkedSub (nowNs clock) hourNs
  | some s =>
    match parseTimestampNs F64 s with
    | some ns => .ok ns
    | none => .error (.refused (.error ("invalid start: " ++ s)))

/-- The cap on steps, of a step that is positive if there is one. -/
def checkedCap (startNs endNs : ℤ) (effective : Option ℤ) : Except Stop Unit :=
  match effective with
  | none => .ok ()
  | some step =>
    if 0 < step then do
      let steps ← checkedDiv (max (i64SaturatingSub endNs startNs) 0) step
      if maxQuerySteps ≤ steps then .error (.refused (tooManySteps steps)) else .ok ()
    else .ok ()

variable {F64} in
/-- `rangeRequest`, in a build that checks the arithmetic. -/
def checkedRangeRequest (expr : LogQLExpr F64) (params : RangeParams) :
    Except Stop RangeRequest := do
  let startNs ← checkedStart F64 clock params.start
  let endNs ← (timeArgument (parseTimestampNs F64) "invalid end: " (nowNs clock)
    params.finish).mapError .refused
  let stepNs ← (rangeStep F64 params.step).mapError .refused
  if stepNs = some 0 then .error (.refused (.error "step must be positive"))
  else do
    checkedCap startNs endNs (effectiveStepNs expr stepNs)
    return ⟨startNs, endNs, stepNs⟩

/-! ### Requests -/

/-- A request to one of the two handlers. -/
inductive Request where
  | instant (time : Option String)
  | range (params : RangeParams)

namespace Request

variable {F64} in
/-- What the handlers hand to the evaluator for a parsed query. -/
def released (expr : LogQLExpr F64) : Request → Except Refusal RangeRequest
  | instant time => (instantWindow F64 clock time).map fun w => ⟨w.1, w.2, none⟩
  | range params => rangeRequest F64 clock expr params

variable {F64} in
/-- The same, in a build that checks the arithmetic. -/
def checked (expr : LogQLExpr F64) : Request → Except Stop RangeRequest
  | instant time => (checkedInstantWindow F64 clock time).map fun w => ⟨w.1, w.2, none⟩
  | range params => checkedRangeRequest clock expr params

variable {F64} in
/-- **All the arithmetic on times stays within an `i64`**: that of the handlers, and that of the
evaluator at each of its steps. -/
structure Stays (expr : LogQLExpr F64) (request : Request) : Prop where
  handler : request.checked clock expr ≠ .error .overflow
  steps : ∀ (r : RangeRequest) (function : MetricFunc) (inner : LogQLExpr F64) (range : ℕ),
    request.checked clock expr = .ok r → expr = .metricQuery function inner range →
      ∀ t ∈ stepTimes r.startNs r.endNs (r.stepNs.getD (durationToI64Ns range)),
        t ∈ Set.Icc i64Min i64Max ∧
          i64SaturatingSub t (durationToI64Ns range) ∈ Set.Icc i64Min i64Max

/-- An instant query with a time so early that there is no `i64` for the one an hour before: a whole
number of seconds, or another number of seconds of that size. -/
def Early : Request → Prop
  | instant (some t) =>
    match parseI64 (strTrim t) with
    | some n => n ≤ -9223368437
    | none => ∃ secs ∈ (FloatOps.parse (strTrim t) : Option F64),
        ∃ ns ∈ floatSecondsToNs secs, ns < i64Min + hourNs
  | _ => False

end Request

/-! ### Where an operation overflows -/

theorem nowNs_mem : nowNs clock ∈ Set.Icc 0 i64Max := by
  unfold nowNs i64Max
  constructor <;> omega

/-- An hour before now is an `i64`. -/
theorem checkedSub_nowNs : checkedSub (nowNs clock) hourNs = .ok (nowNs clock - hourNs) := by
  obtain ⟨hnonneg, hmax⟩ := nowNs_mem clock
  refine fits_of_mem ⟨?_, ?_⟩
  · unfold hourNs i64Min
    omega
  · unfold hourNs
    omega

/-- The cap is that of the handlers: its quotient is an `i64`. -/
theorem checkedCap_eq (startNs endNs : ℤ) (effective : Option ℤ) :
    checkedCap startNs endNs effective =
      if stepCapRejects startNs endNs effective then
        .error (.refused (tooManySteps ((effective.map (numSteps startNs endNs)).getD 0)))
      else .ok () := by
  cases effective with
  | none => rfl
  | some step =>
    rw [checkedCap, stepCapRejects]
    by_cases hstep : 0 < step
    · have hspan : 0 ≤ max (i64SaturatingSub endNs startNs) 0 ∧
          max (i64SaturatingSub endNs startNs) 0 ≤ i64Max := by
        unfold i64SaturatingSub i64Min i64Max
        omega
      have hquotient : checkedDiv (max (i64SaturatingSub endNs startNs) 0) step =
          .ok (max (i64SaturatingSub endNs startNs) 0 / step) := by
        have hnonneg := Int.ediv_nonneg hspan.1 hstep.le
        have hle := Int.ediv_le_self step hspan.1
        rw [checkedDiv, Int.tdiv_eq_ediv_of_nonneg hspan.1]
        exact fits_of_mem ⟨(show i64Min ≤ 0 by decide).trans hnonneg, hle.trans hspan.2⟩
      rw [if_pos hstep, hquotient]
      simp only [hstep, true_and, decide_eq_true_eq]
      rfl
    · simp [hstep]

/-- **No operation of a range request overflows.** -/
theorem checkedRangeRequest_eq (expr : LogQLExpr F64) (params : RangeParams) :
    checkedRangeRequest clock expr params =
      (rangeRequest F64 clock expr params).mapError .refused := by
  have hstart : checkedStart F64 clock params.start =
      (timeArgument (parseTimestampNs F64) "invalid start: " (nowNs clock - hourNs)
        params.start).mapError .refused := by
    cases params.start with
    | none => exact checkedSub_nowNs clock
    | some s =>
      rw [checkedStart, timeArgument]
      cases parseTimestampNs F64 s <;> rfl
  rw [checkedRangeRequest, rangeRequest, hstart]
  cases timeArgument (parseTimestampNs F64) "invalid start: " (nowNs clock - hourNs)
    params.start with
  | error => rfl
  | ok startNs =>
    cases timeArgument (parseTimestampNs F64) "invalid end: " (nowNs clock) params.finish with
    | error => rfl
    | ok endNs =>
      cases rangeStep F64 params.step with
      | error => rfl
      | ok stepNs =>
        show (if stepNs = some 0 then _ else _) = Except.mapError _ (if stepNs = some 0 then _ else _)
        split
        · rfl
        · rw [checkedCap_eq]
          cases stepCapRejects startNs endNs (effectiveStepNs expr stepNs) <;> rfl

/-- The time of an early request, in nanoseconds. -/
theorem early_iff {t : String} :
    (Request.instant (some t)).Early F64 ↔
      ∃ ns, parseTimestampNs F64 t = some ns ∧ ns < i64Min + hourNs := by
  rw [Request.Early, parseTimestampNs]
  cases parseI64 (strTrim t) with
  | none =>
    simp only [Option.mem_def, Option.bind_eq_some_iff]
    constructor
    · rintro ⟨secs, hsecs, ns, hns, hlt⟩
      exact ⟨ns, ⟨secs, hsecs, hns⟩, hlt⟩
    · rintro ⟨ns, ⟨secs, hsecs, hns⟩, hlt⟩
      exact ⟨secs, hsecs, ns, hns, hlt⟩
  | some n =>
    simp only [Option.some.injEq, exists_eq_left']
    unfold classifyToNs i64SaturatingMul hourNs i64Min i64Max
    split_ifs <;> omega

variable {clock} in
/-- **Where a request overflows**: where it is early. Otherwise the handlers compute in a build that
checks the arithmetic what they compute in one that does not. -/
theorem Request.checked_eq (expr : LogQLExpr F64) (request : Request) :
    (request.Early F64 → request.checked clock expr = .error .overflow) ∧
    (¬ request.Early F64 →
      request.checked clock expr = (request.released clock expr).mapError .refused) := by
  cases request with
  | range params => exact ⟨False.elim, fun _ => checkedRangeRequest_eq F64 clock expr params⟩
  | instant time =>
    cases time with
    | none =>
      refine ⟨False.elim, fun _ => ?_⟩
      rw [Request.checked, checkedInstantWindow, checkedSub_nowNs]
      rfl
    | some t =>
      rw [early_iff, Request.checked, Request.released, checkedInstantWindow, instantWindow]
      cases hns : parseTimestampNs F64 t with
      | none =>
        refine ⟨?_, fun _ => rfl⟩
        rintro ⟨ns, hsome, -⟩
        exact absurd hsome (by simp)
      | some ns =>
        obtain ⟨hmin, hmax⟩ := parseTimestampNs_mem F64 hns
        simp only [Option.some.injEq, exists_eq_left', not_lt]
        constructor
        · intro hlt
          have hsub : checkedSub ns hourNs = .error .overflow :=
            if_neg fun h => absurd h.1 (by omega)
          rw [hsub]
          rfl
        · intro hle
          have hmem : ns - hourNs ∈ Set.Icc i64Min i64Max :=
            ⟨by omega, (sub_le_self ns (by decide)).trans hmax⟩
          have hsub : checkedSub ns hourNs = .ok (ns - hourNs) := fits_of_mem hmem
          have hwrap : i64WrappingSub ns hourNs = ns - hourNs := by
            unfold i64Min i64Max at hmem
            unfold i64WrappingSub
            rw [Int.bmod_def]
            have := hmem.1
            have := hmem.2
            omega
          rw [hsub, hwrap]
          rfl

/-! ### The steps of the evaluator -/

variable {F64 clock}

theorem checkedInstantWindow_mem {time : Option String} {w : ℤ × ℤ}
    (h : checkedInstantWindow F64 clock time = .ok w) : w.1 ∈ Set.Icc i64Min i64Max := by
  cases time with
  | none =>
    obtain ⟨start, hstart, h⟩ := exists_of_bind_eq_ok h
    obtain rfl := Except.ok.inj h
    exact mem_of_fits hstart
  | some t =>
    rw [checkedInstantWindow] at h
    split at h
    · obtain ⟨start, hstart, h⟩ := exists_of_bind_eq_ok h
      obtain rfl := Except.ok.inj h
      exact mem_of_fits hstart
    · exact absurd h (by simp)

theorem checkedStart_mem {start : Option String} {startNs : ℤ}
    (h : checkedStart F64 clock start = .ok startNs) : startNs ∈ Set.Icc i64Min i64Max := by
  cases start with
  | none => exact mem_of_fits h
  | some s =>
    rw [checkedStart] at h
    split at h
    · next hns => exact Except.ok.inj h ▸ parseTimestampNs_mem F64 hns
    · exact absurd h (by simp)

/-- What the evaluator is handed has a start that an `i64` holds. -/
theorem Request.startNs_mem {expr : LogQLExpr F64} {request : Request} {r : RangeRequest}
    (h : request.checked clock expr = .ok r) : r.startNs ∈ Set.Icc i64Min i64Max := by
  cases request with
  | instant time =>
    rw [Request.checked] at h
    cases hwindow : checkedInstantWindow F64 clock time with
    | error stop =>
      rw [hwindow] at h
      exact absurd h (by simp [Except.map])
    | ok w =>
      rw [hwindow] at h
      obtain rfl := Except.ok.inj h
      exact checkedInstantWindow_mem hwindow
  | range params =>
    rw [Request.checked, checkedRangeRequest] at h
    obtain ⟨startNs, hstart, h⟩ := exists_of_bind_eq_ok h
    obtain ⟨endNs, -, h⟩ := exists_of_bind_eq_ok h
    obtain ⟨stepNs, -, h⟩ := exists_of_bind_eq_ok h
    split_ifs at h
    obtain ⟨-, -, h⟩ := exists_of_bind_eq_ok h
    obtain rfl := Except.ok.inj h
    exact checkedStart_mem hstart

/-- Every time of the evaluator's loop is an `i64`, whatever the step. -/
theorem stepTimes_mem {startNs endNs step : ℤ} (hstart : startNs ∈ Set.Icc i64Min i64Max) :
    ∀ t ∈ stepTimes startNs endNs step, t ∈ Set.Icc i64Min i64Max := by
  intro t ht
  rcases le_or_gt startNs endNs with hle | hlt
  · obtain ⟨rest, hsteps, hchain, hpos, hmax⟩ := stepTimes_of_le hle step
    rw [hsteps] at ht
    obtain rfl | hrest := List.mem_cons.mp ht
    · exact hstart
    · have hstep := hpos (List.ne_nil_of_mem hrest)
      exact ⟨hstart.1.trans (List.le_of_mem_of_isChain_add hchain hstep.le t ht), hmax t hrest⟩
  · have hnone : stepTimes startNs endNs step = [] :=
      (whileLoop_iff_stepTimes.mp (WhileLoop.exit (not_le.mpr hlt))).symm
    rw [hnone] at ht
    exact absurd ht List.not_mem_nil

/-- **All the arithmetic on times stays within an `i64`, but for the early requests**, in which the
hour before the time overflows. -/
theorem Request.stays_iff (clock : ℕ) (expr : LogQLExpr F64) (request : Request) :
    request.Stays clock expr ↔ ¬ request.Early F64 := by
  obtain ⟨hearly, hlate⟩ := @Request.checked_eq F64 _ clock expr request
  constructor
  · intro hstays hrequest
    exact hstays.handler (hearly hrequest)
  · intro hrequest
    refine ⟨?_, ?_⟩
    · rw [hlate hrequest]
      cases request.released clock expr <;> simp [Except.mapError]
    · intro r function inner range hr _ t ht
      refine ⟨stepTimes_mem (Request.startNs_mem hr) t ht, ?_⟩
      exact ⟨le_max_left _ _, max_le (by decide) (min_le_left _ _)⟩

/-- **A query for the first second that fits an `i64` overflows.** -/
theorem Request.not_stays_first :
    Request.checked 0 (.streamSelector [] : LogQLExpr ℤ) (.instant (some "-9223372036")) =
        .error .overflow ∧
      ¬ (Request.instant (some "-9223372036")).Stays 0 (.streamSelector [] : LogQLExpr ℤ) := by
  have hparse : parseTimestampNs ℤ "-9223372036" = some (-9223372036000000000) := by decide
  have hoverflow : Request.checked 0 (.streamSelector [] : LogQLExpr ℤ)
      (.instant (some "-9223372036")) = .error .overflow := by
    simp only [Request.checked, checkedInstantWindow, hparse]
    rfl
  exact ⟨hoverflow, fun hstays => hstays.handler hoverflow⟩

end Handlers

end LogQL

end Aniani
