import Aniani.Query.Exact
import Aniani.Query.PromQL.Selectors

/-!
# Rates of counters

`rate`, `increase`, `irate`, `delta` and `deriv` look at the samples of a window that is no longer
than the range. They divide by lengths of time and by a sum of squares, each time after a test that
keeps zero out. The increase of a counter is added up sample by sample, where a value below the one
before is a counter that started again from zero; in exact arithmetic it is a sum over neighbours,
whatever the positions of the resets.

## Main definitions

* `ZeroTests` — the tests that keep zero out of the divisors
* `growth` — the same in exact arithmetic

## Main results

* `computeRateLike_lift` — nothing is divided by zero
* `windowSamples_span` — the length of a window is an `i64`
* `rateLike_sound` — both, of every store that can be reached, and the laws of the increase
-/

namespace Aniani

namespace PromQL

open FloatOps

variable {Rodeo Spur F64 : Type}

/-! ### Division -/

/-- What a number passes before it becomes a divisor shows that it is not zero. -/
class ZeroTests (F64 : Type) [FloatOps F64] : Prop where
  of_not_le : ∀ {a : F64}, le a Float64.zero = false → eq a Float64.zero = false
  of_lt : ∀ {a : F64}, lt Float64.zero a = true → eq a Float64.zero = false
  of_abs : ∀ {a : F64}, lt (FloatOps.abs a) epsilon = false → eq a Float64.zero = false
  thousand : eq (Float64.ofI64 1000 : F64) Float64.zero = false
  length : ∀ {n : ℕ}, 0 < n → eq (Float64.ofU64 n : F64) Float64.zero = false

section Formulas

variable [FloatOps F64]

/-- An increase per second. -/
def perSecond (increase sampleDurationS : F64) : Option F64 :=
  if le sampleDurationS Float64.zero then none else some (div increase sampleDurationS)

/-- The rate between two samples. -/
def rateBetween (pair : Sample F64 × Sample F64) : Option F64 :=
  let dt := seconds (pair.2.timestampMs - pair.1.timestampMs)
  if lt Float64.zero dt then some (div (counterIncrease pair.1 pair.2) dt) else none

/-- The mean of a number of each sample. -/
def meanOf (g : Sample F64 → F64) (samples : List (Sample F64)) : F64 :=
  div (FloatOps.sum (samples.map g)) (Float64.ofU64 samples.length)

/-- How far a sample is from the middle of the times. -/
def timeOffset (samples : List (Sample F64)) (s : Sample F64) : F64 :=
  sub (seconds s.timestampMs) (meanOf (fun s => seconds s.timestampMs) samples)

/-- The slope of the line of least squares. -/
def slope (samples : List (Sample F64)) : Option F64 :=
  let num := samples.foldl (fun num s => add num (mul (timeOffset samples s)
    (sub s.value (meanOf Sample.value samples)))) Float64.zero
  let den := samples.foldl (fun den s => add den (mul (timeOffset samples s) (timeOffset samples s)))
    Float64.zero
  if lt (FloatOps.abs den) epsilon then none else some (div num den)

/-- What a function of the family makes of a window with these ends. -/
def rateFormula (rangeMs : ℤ) (samples : List (Sample F64)) (first last : Sample F64) :
    RateFunc → Option F64
  | .rate => perSecond (totalIncrease samples) (seconds (last.timestampMs - first.timestampMs))
  | .increase => perSecond (mul (totalIncrease samples) (seconds rangeMs))
      (seconds (last.timestampMs - first.timestampMs))
  | .delta => some (sub last.value first.value)
  | .deriv => slope samples
  | .irate => (windows2 samples).getLast?.bind rateBetween

theorem computeRateLike_eq (f : RateFunc) (rangeMs : ℤ) (samples : List (Sample F64)) :
    computeRateLike f rangeMs samples =
      if samples.length < 2 then none
      else samples.head?.bind fun first => samples.getLast?.bind fun last =>
        rateFormula rangeMs samples first last f := by
  rw [computeRateLike]
  split_ifs
  · rfl
  · cases samples.head? with
    | none => rfl
    | some first =>
      cases samples.getLast? with
      | none => rfl
      | some last =>
        cases f with
        | irate => cases hpair : (windows2 samples).getLast? <;> simp [rateFormula, hpair, rateBetween]
        | _ => rfl

end Formulas

/-- A sample from before the computation. -/
def liftSample (s : Sample F64) : Sample (Checked F64) :=
  { timestampMs := s.timestampMs, value := Checked.lift s.value, ingestSeq := s.ingestSeq }

@[simp] theorem liftSample_timestampMs (s : Sample F64) :
    (liftSample s).timestampMs = s.timestampMs := rfl

section Lift

variable [FloatOps F64]

theorem windows2_map {α β : Type} (f : α → β) (l : List α) :
    windows2 (l.map f) = (windows2 l).map (Prod.map f f) := by
  rw [windows2, windows2, ← List.map_tail, List.zip_map]

theorem counterIncrease_lift (prev curr : Sample F64) :
    counterIncrease (liftSample prev) (liftSample curr) =
      Checked.lift (counterIncrease prev curr) := by
  unfold counterIncrease liftSample
  simp only [Checked.sub_lift, Checked.zero_eq, Checked.le_lift]
  exact (apply_ite Checked.lift _ _ _).symm

/-- A loop of additions. -/
theorem foldl_add_lift {α : Type} {f : α → F64} {g : α → Checked F64}
    (h : ∀ a, g a = Checked.lift (f a)) (l : List α) (total : F64) :
    l.foldl (fun total a => add total (g a)) (Checked.lift total) =
      Checked.lift (l.foldl (fun total a => add total (f a)) total) := by
  induction l generalizing total with
  | nil => rfl
  | cons a l ih => rw [List.foldl_cons, List.foldl_cons, h, Checked.add_lift, ih]

theorem totalIncrease_lift (samples : List (Sample F64)) :
    totalIncrease (samples.map liftSample) = Checked.lift (totalIncrease samples) := by
  rw [totalIncrease, totalIncrease, windows2_map, List.foldl_map]
  exact foldl_add_lift (fun pair : Sample F64 × Sample F64 => counterIncrease_lift pair.1 pair.2) _ _

theorem sum_lift {α : Type} (f : α → F64) (l : List α) :
    FloatOps.sum (l.map fun a => Checked.lift (f a)) = Checked.lift (FloatOps.sum (l.map f)) := by
  have hall : (l.map fun a => some (f a)).mapM id = some (l.map f) := by
    rw [List.mapM_map]
    exact List.mapM_pure
  exact congrArg (Option.map FloatOps.sum) hall

variable [ZeroTests F64]

theorem seconds_lift (ms : ℤ) : (seconds ms : Checked F64) = Checked.lift (seconds ms) :=
  Checked.div_lift _ ZeroTests.thousand

theorem perSecond_lift (increase sampleDurationS : F64) :
    perSecond (Checked.lift increase) (Checked.lift sampleDurationS) =
      (perSecond increase sampleDurationS).map Checked.lift := by
  rw [perSecond, perSecond, Checked.zero_eq, Checked.le_lift]
  split_ifs with hspan
  · rfl
  · rw [Checked.div_lift _ (ZeroTests.of_not_le (Bool.eq_false_of_not_eq_true hspan))]
    rfl

theorem rateBetween_lift (pair : Sample F64 × Sample F64) :
    rateBetween (Prod.map liftSample liftSample pair) =
      (rateBetween pair).map Checked.lift := by
  simp only [rateBetween, Prod.map, counterIncrease_lift, Checked.zero_eq]
  simp only [liftSample, seconds_lift, Checked.lt_lift]
  split_ifs with hspan
  · rw [Checked.div_lift _ (ZeroTests.of_lt hspan)]
    rfl
  · rfl

theorem meanOf_lift {f : Sample F64 → F64} {g : Sample (Checked F64) → Checked F64}
    (h : ∀ s, g (liftSample s) = Checked.lift (f s)) {samples : List (Sample F64)}
    (hlength : 0 < samples.length) :
    meanOf g (samples.map liftSample) = Checked.lift (meanOf f samples) := by
  have hg : (samples.map liftSample).map g = samples.map fun s => Checked.lift (f s) := by
    rw [List.map_map]
    exact List.map_congr_left fun s _ => h s
  rw [meanOf, meanOf, hg, sum_lift, List.length_map, Checked.ofU64_eq,
    Checked.div_lift _ (ZeroTests.length hlength)]

theorem timeOffset_lift {samples : List (Sample F64)} (hlength : 0 < samples.length)
    (s : Sample F64) :
    timeOffset (samples.map liftSample) (liftSample s) = Checked.lift (timeOffset samples s) := by
  rw [timeOffset, timeOffset, meanOf_lift (fun s => seconds_lift s.timestampMs) hlength]
  exact congrArg (sub · _) (seconds_lift _)

theorem slope_lift {samples : List (Sample F64)} (hlength : 0 < samples.length) :
    slope (samples.map liftSample) = (slope samples).map Checked.lift := by
  have hvalue : meanOf Sample.value (samples.map liftSample) =
      Checked.lift (meanOf Sample.value samples) := meanOf_lift (fun _ => rfl) hlength
  simp only [slope, List.foldl_map, timeOffset_lift hlength, hvalue, Checked.zero_eq]
  have hnum (s : Sample F64) : mul (Checked.lift (timeOffset samples s))
      (sub (liftSample s).value (Checked.lift (meanOf Sample.value samples))) =
        Checked.lift (mul (timeOffset samples s) (sub s.value (meanOf Sample.value samples))) := rfl
  have hden (s : Sample F64) : mul (Checked.lift (timeOffset samples s))
      (Checked.lift (timeOffset samples s)) =
        Checked.lift (mul (timeOffset samples s) (timeOffset samples s)) := rfl
  rw [foldl_add_lift hnum, foldl_add_lift hden, Checked.abs_lift, Checked.epsilon_eq,
    Checked.lt_lift]
  split_ifs with hsmall
  · rfl
  · rw [Checked.div_lift _ (ZeroTests.of_abs (Bool.eq_false_of_not_eq_true hsmall))]
    rfl

/-- **Nothing is divided by zero**: on numbers that no division by zero has gone into, the result is
one. -/
theorem computeRateLike_lift (f : RateFunc) (rangeMs : ℤ) (samples : List (Sample F64)) :
    computeRateLike f rangeMs (samples.map liftSample) =
      (computeRateLike f rangeMs samples).map Checked.lift := by
  rw [computeRateLike_eq, computeRateLike_eq, List.length_map, List.head?_map, List.getLast?_map]
  split_ifs with hlength
  · rfl
  · cases hfirst : samples.head? with
    | none => rfl
    | some first =>
      cases hlast : samples.getLast? with
      | none => rfl
      | some last =>
        cases f with
        | rate =>
          simp only [Option.map_some, Option.bind_some, rateFormula, totalIncrease_lift,
            liftSample_timestampMs, seconds_lift, perSecond_lift]
        | increase =>
          simp only [Option.map_some, Option.bind_some, rateFormula, totalIncrease_lift,
            liftSample_timestampMs, seconds_lift, Checked.mul_lift, perSecond_lift]
        | delta => rfl
        | deriv => exact slope_lift (by omega)
        | irate =>
          simp only [Option.map_some, Option.bind_some, rateFormula, windows2_map, List.getLast?_map]
          cases (windows2 samples).getLast? with
          | none => rfl
          | some pair => exact rateBetween_lift pair

end Lift

/-! ### The tests of `f64` -/

instance : ZeroTests Double where
  of_not_le h := (Bool.or_eq_false_iff.mp h).2
  of_lt h := Double.beq_of_lt h
  of_abs {a} h := by
    refine Bool.eq_false_of_not_eq_true fun heq => ?_
    obtain ⟨hrepr, rfl⟩ := Double.of_beq_zero heq
    obtain ⟨_, hzero⟩ := Double.zero_eq
    have hsmall : Double.lt Float64.zero (Double.ofRat (2 ^ (-52 : ℤ))) = true :=
      Double.zero_lt_ofRat (by decide) le_rfl
    rw [hzero] at hsmall
    exact absurd hsmall (Bool.eq_false_iff.mp h)
  thousand := Double.beq_of_lt (Double.zero_lt_ofRat (e := 0) (by decide) (by norm_num))
  length {n} h := Double.beq_of_lt (Double.zero_lt_ofRat (e := 0) (by decide)
    (by rw [zpow_zero]; exact_mod_cast h))

/-! ### The increase of a counter -/

/-- How much a counter grew that was seen at these values, one after the other. -/
def growth : List ℚ → ℚ
  | a :: b :: values => (if a ≤ b then b - a else b) + growth (b :: values)
  | _ => 0

theorem growth_cons_cons (a b : ℚ) (values : List ℚ) :
    growth (a :: b :: values) = (if a ≤ b then b - a else b) + growth (b :: values) := rfl

theorem growth_singleton (a : ℚ) : growth [a] = 0 := rfl

/-- **Growth is additive**: it can be counted up to a sample, and from it on. -/
theorem growth_append (pre : List ℚ) (b : ℚ) (post : List ℚ) :
    growth (pre ++ b :: post) = growth (pre ++ [b]) + growth (b :: post) := by
  induction pre with
  | nil => rw [List.nil_append, List.nil_append, growth_singleton, zero_add]
  | cons a pre ih =>
    cases pre with
    | nil => rw [List.singleton_append, List.singleton_append, growth_cons_cons, growth_cons_cons,
        growth_singleton, add_zero]
    | cons c pre =>
      simp only [List.cons_append] at ih ⊢
      rw [growth_cons_cons, growth_cons_cons, ih, add_assoc]

theorem growth_nonneg {values : List ℚ} (h : ∀ v ∈ values, 0 ≤ v) : 0 ≤ growth values := by
  induction values with
  | nil => exact le_rfl
  | cons a values ih =>
    cases values with
    | nil => exact le_rfl
    | cons b values =>
      rw [List.forall_mem_cons, List.forall_mem_cons] at h
      refine add_nonneg ?_ (ih (List.forall_mem_cons.mpr h.2))
      split_ifs with hab
      · exact sub_nonneg.mpr hab
      · exact h.2.1

/-- A reset makes up for what the counter lost. -/
theorem sub_le_growth {a b : ℚ} {values : List ℚ} (h : ∀ v ∈ a :: values, 0 ≤ v)
    (hlast : (a :: values).getLast? = some b) : b - a ≤ growth (a :: values) := by
  induction values generalizing a with
  | nil =>
    obtain rfl : a = b := Option.some.inj hlast
    rw [sub_self, growth_singleton]
  | cons c values ih =>
    rw [List.forall_mem_cons] at h
    rw [List.getLast?_cons_cons] at hlast
    have hrest := ih h.2 hlast
    have hstep : c - a ≤ if a ≤ c then c - a else c := by
      split_ifs
      · exact le_rfl
      · exact sub_le_self c h.1
    rw [growth_cons_cons]
    linarith

/-- The values of some samples, as rational numbers. -/
def values (samples : List (Sample Exact)) : List ℚ := samples.map fun s => s.value.toRat

/-- The samples have rational numbers as values. -/
def Rational (samples : List (Sample Exact)) : Prop :=
  ∀ s ∈ samples, s.value = .finite s.value.toRat

theorem foldl_counterIncrease {samples : List (Sample Exact)} (h : Rational samples) (total : ℚ) :
    (windows2 samples).foldl (fun total pair => add total (counterIncrease pair.1 pair.2))
        (Exact.finite total) = .finite (total + growth (values samples)) := by
  induction samples generalizing total with
  | nil => exact congrArg Exact.finite (add_zero total).symm
  | cons a samples ih =>
    cases samples with
    | nil => exact congrArg Exact.finite (add_zero total).symm
    | cons b samples =>
      have hab := List.forall_mem_cons.mp h
      have hb := (List.forall_mem_cons.mp hab.2).1
      have hstep : counterIncrease a b = .finite (if a.value.toRat ≤ b.value.toRat
          then b.value.toRat - a.value.toRat else b.value.toRat) := by
        rw [counterIncrease, hab.1, hb, Exact.sub_finite, Exact.zero_eq, Exact.le_finite]
        simp only [decide_eq_true_eq, sub_nonneg, Exact.toRat_finite]
        exact (apply_ite Exact.finite _ _ _).symm
      have hwindows : windows2 (a :: b :: samples) = (a, b) :: windows2 (b :: samples) := rfl
      rw [hwindows, List.foldl_cons, hstep, Exact.add_finite, ih hab.2, add_assoc]
      rfl

theorem totalIncrease_eq {samples : List (Sample Exact)} (h : Rational samples) :
    totalIncrease samples = .finite (growth (values samples)) := by
  rw [totalIncrease, Exact.zero_eq, foldl_counterIncrease h, zero_add]

theorem seconds_exact (ms : ℤ) : (seconds ms : Exact) = .finite (ms / 1000) :=
  Exact.div_finite _ (by norm_num)

/-- **The increase is what `rate` and `increase` scale**, of a window that takes time. -/
theorem computeRateLike_scaled {samples : List (Sample Exact)} {first last : Sample Exact}
    (hfirst : first ∈ samples.head?) (hlast : last ∈ samples.getLast?)
    (hspan : first.timestampMs < last.timestampMs) (rangeMs : ℤ) :
    let durationS : Exact := seconds (last.timestampMs - first.timestampMs)
    computeRateLike .rate rangeMs samples = some (div (totalIncrease samples) durationS) ∧
      computeRateLike .increase rangeMs samples =
        some (div (mul (totalIncrease samples) (seconds rangeMs)) durationS) := by
  intro durationS
  have hlength : ¬ samples.length < 2 := by
    intro hlt
    -- a single sample would be the first and the last
    match samples, hlt with
    | [], _ => exact absurd hfirst (Option.not_mem_none first)
    | [s], _ =>
      obtain rfl : s = first := Option.some.inj hfirst
      obtain rfl : s = last := Option.some.inj hlast
      exact lt_irrefl _ hspan
  have hpos :
      le (seconds (last.timestampMs - first.timestampMs)) (Float64.zero : Exact) = false := by
    have hms : (0 : ℚ) < (last.timestampMs - first.timestampMs : ℤ) := by
      exact_mod_cast sub_pos.mpr hspan
    rw [seconds_exact, Exact.zero_eq, Exact.le_finite]
    exact decide_eq_false (not_le.mpr (div_pos hms (by norm_num)))
  constructor
  · rw [computeRateLike_eq, if_neg hlength, hfirst, hlast]
    exact if_neg (Bool.eq_false_iff.mp hpos)
  · rw [computeRateLike_eq, if_neg hlength, hfirst, hlast]
    exact if_neg (Bool.eq_false_iff.mp hpos)

/-- **The laws of the increase** of a counter. -/
theorem totalIncrease_sound {samples : List (Sample Exact)}
    (h : ∀ s ∈ samples, ∃ v : ℚ, 0 ≤ v ∧ s.value = .finite v) :
    le (.finite 0) (totalIncrease samples) = true ∧
      (∀ first ∈ samples.head?, ∀ last ∈ samples.getLast?,
        le (sub last.value first.value) (totalIncrease samples) = true) ∧
      ∀ pre s post, samples = pre ++ s :: post →
        totalIncrease samples = add (totalIncrease (pre ++ [s])) (totalIncrease (s :: post)) := by
  have hrat : Rational samples := by
    intro s hs
    obtain ⟨v, _, hv⟩ := h s hs
    rw [hv, Exact.toRat_finite]
  have hnonneg : ∀ v ∈ values samples, 0 ≤ v := by
    intro v hv
    obtain ⟨s, hs, rfl⟩ := List.mem_map.mp hv
    obtain ⟨v, hpos, hv⟩ := h s hs
    rwa [hv, Exact.toRat_finite]
  refine ⟨?_, fun first hfirst last hlast => ?_, ?_⟩
  · rw [totalIncrease_eq hrat, Exact.le_finite]
    exact decide_eq_true (growth_nonneg hnonneg)
  · rw [totalIncrease_eq hrat, hrat first (List.mem_of_mem_head? hfirst),
      hrat last (List.mem_of_getLast? hlast), Exact.sub_finite, Exact.le_finite]
    obtain ⟨rest, rfl⟩ := List.head?_eq_some_iff.mp hfirst
    refine decide_eq_true (sub_le_growth hnonneg ?_)
    have hmap := congrArg (Option.map fun s : Sample Exact => s.value.toRat) hlast
    rwa [← List.getLast?_map] at hmap
  · rintro pre s post rfl
    have hpre : Rational (pre ++ [s]) := fun a ha => hrat a (by
      rw [List.mem_append, List.mem_singleton] at ha
      exact ha.elim (List.mem_append_left _) (fun heq => heq ▸ List.mem_append_cons_self))
    have hpost : Rational (s :: post) := fun a ha => hrat a (List.mem_append_right _ ha)
    rw [totalIncrease_eq hrat, totalIncrease_eq hpre, totalIncrease_eq hpost, Exact.add_finite]
    have happend := growth_append (values pre) s.value.toRat (values post)
    rw [values, values, values, List.map_append, List.map_append]
    exact congrArg Exact.finite happend

/-! ### The length of a window -/

section Window

variable [LinearOrder Spur] [Interner Rodeo Spur]

theorem i64SaturatingSub_mem (a b : ℤ) : i64SaturatingSub a b ∈ Set.Icc i64Min i64Max := by
  unfold i64SaturatingSub
  exact ⟨le_max_left _ _, max_le i64Min_le_i64Max (min_le_left _ _)⟩

/-- A window is not longer than its range. -/
theorem sub_i64SaturatingSub_le {t range : ℤ} (ht : t ∈ Set.Icc i64Min i64Max) (hrange : 0 ≤ range) :
    t - i64SaturatingSub t range ≤ range := by
  obtain ⟨hlo, hhi⟩ := ht
  unfold i64SaturatingSub
  omega

omit [LinearOrder Spur] [Interner Rodeo Spur] in
/-- **A difference of times in a window** is an `i64`. -/
theorem windowSamples_span {env : Env Rodeo Spur F64} (h : env.store.Sorted) (vs : VectorSelector)
    (range sid : ℕ) (t : ℤ) :
    (windowSamples env vs (durationToI64Ms range) sid t).Pairwise fun a b =>
      b.timestampMs - a.timestampMs ∈ Set.Icc 0 i64Max := by
  rw [windowSamples_of_sorted h]
  set stop := i64SaturatingSub t (offsetToMs vs.offset) with hstop
  obtain ⟨hrange, hmax⟩ := durationToI64Ms_mem range
  have hspan := sub_i64SaturatingSub_le (hstop ▸ i64SaturatingSub_mem _ _ : stop ∈ _) hrange
  have hmem (c : Sample F64)
      (hc : c ∈ env.store.window sid (i64SaturatingSub stop (durationToI64Ms range)) stop) :
      i64SaturatingSub stop (durationToI64Ms range) ≤ c.timestampMs ∧ c.timestampMs ≤ stop :=
    of_decide_eq_true (List.mem_filter.mp hc).2
  have hsorted : (env.store.entriesOf sid).SortedBy Sample.timestampMs :=
    env.store.sortedBy_entriesOf h sid
  refine (hsorted.sublist List.filter_sublist).imp_of_mem fun {a b} ha hb hab => ?_
  have hfirst := (hmem a ha).1
  have hlast := (hmem b hb).2
  exact ⟨by omega, by omega⟩

/-- **The rate functions are sound**, in every store that can be reached, at every time and for every
range: differences of times are an `i64` and nothing is divided by zero. In exact arithmetic the
increase that `rate` and `increase` scale is not negative, not less than the last value less the
first, and additive. -/
theorem rateLike_sound (ops : List (MetricOp Double)) (env : Env Rodeo Spur Double)
    (henv : env.store = Run.exec MetricStore.apply MetricStore.new ops) :
    (∀ (vs : VectorSelector) (range sid : ℕ) (t : ℤ),
      let samples := windowSamples env vs (durationToI64Ms range) sid t
      (samples.Pairwise fun a b => b.timestampMs - a.timestampMs ∈ Set.Icc 0 i64Max) ∧
        ∀ f, computeRateLike f (durationToI64Ms range) (samples.map liftSample) =
          (computeRateLike f (durationToI64Ms range) samples).map Checked.lift) ∧
    ∀ samples : List (Sample Exact), (∀ s ∈ samples, ∃ v : ℚ, 0 ≤ v ∧ s.value = .finite v) →
      (∀ first ∈ samples.head?, ∀ last ∈ samples.getLast?, first.timestampMs < last.timestampMs →
        ∀ rangeMs, let durationS : Exact := seconds (last.timestampMs - first.timestampMs)
          computeRateLike .rate rangeMs samples = some (div (totalIncrease samples) durationS) ∧
            computeRateLike .increase rangeMs samples =
              some (div (mul (totalIncrease samples) (seconds rangeMs)) durationS)) ∧
      le (.finite 0) (totalIncrease samples) = true ∧
        (∀ first ∈ samples.head?, ∀ last ∈ samples.getLast?,
          le (sub last.value first.value) (totalIncrease samples) = true) ∧
        ∀ pre s post, samples = pre ++ s :: post →
          totalIncrease samples = add (totalIncrease (pre ++ [s])) (totalIncrease (s :: post)) := by
  have hsorted : env.store.Sorted := by
    rw [henv]
    exact MetricStore.sorted_exec ops
  exact ⟨fun vs range sid t => ⟨windowSamples_span hsorted vs range sid t,
    fun f => computeRateLike_lift f _ _⟩, fun samples h =>
      ⟨fun first hfirst last hlast hspan => computeRateLike_scaled hfirst hlast hspan,
        totalIncrease_sound h⟩⟩

end Window

/-- A counter that is reset between two scrapes. -/
def resetEnv : Env VecRodeo ℕ Double where
  store := Run.exec MetricStore.apply MetricStore.new
    [.ingestSamples "requests" [] [⟨i64Min, Float64.ofI64 5, 0⟩, ⟨0, Float64.ofI64 2, 1⟩]]
  it := .ascending ℕ
  itValues := .ascending ℕ
  regexNew _ := none
  debugStr s := s

/-- From 5 to 2 over two seconds: the counter grew by 2 after the reset, by one in a second. -/
theorem rateLike_sound_reset :
    (windowSamples resetEnv ⟨some "requests", [], none, none⟩ (durationToI64Ms 60000000000) 0
        0).Pairwise (fun a b => b.timestampMs - a.timestampMs ∈ Set.Icc 0 i64Max) ∧
      computeRateLike .rate 60000 [⟨0, Exact.finite 5, 0⟩, ⟨2000, .finite 2, 1⟩] =
        some (div (totalIncrease [⟨0, Exact.finite 5, 0⟩, ⟨2000, .finite 2, 1⟩]) (seconds 2000)) ∧
      le (.finite 0) (totalIncrease [⟨0, Exact.finite 5, 0⟩, ⟨2000, .finite 2, 1⟩]) = true := by
  obtain ⟨hscaled, hpos, -⟩ := (rateLike_sound _ resetEnv rfl).2
    [⟨0, Exact.finite 5, 0⟩, ⟨2000, .finite 2, 1⟩] (List.forall_mem_cons.mpr ⟨⟨5, by norm_num, rfl⟩,
      List.forall_mem_singleton.mpr ⟨2, by norm_num, rfl⟩⟩)
  exact ⟨((rateLike_sound _ resetEnv rfl).1 _ _ _ _).1,
    (hscaled _ rfl _ rfl (by decide) 60000).1, hpos⟩

end PromQL

end Aniani
