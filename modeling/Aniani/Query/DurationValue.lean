import Aniani.Query.DurationLimits

/-!
# What a duration is read as

The parser of durations and the one of TraceQL literals read the number of a text in the same way:
as the nearest `f64`, which is scaled to seconds in `f64` and then rounded to nanoseconds. They take
different texts, and of milliseconds the former takes whole ones only, which it does not scale.

## Main definitions

* `secondsOf` — the seconds of a number of a unit
* `durationNanos` — the nanoseconds of a text, as the parser of durations reads it

## Main results

* `parseDuration_eq_some_iff` — what the parser of durations accepts, and as what
* `parseDurationValue_eq_ok_iff` — what is accepted as a literal, and as what
-/

namespace Aniani

open Binary64 Combinator Combinators

/-- The seconds of a number of a unit, if a duration can be that long. -/
def secondsOf (number : List Char) (unit : ℚ) : Option ℚ := do
  let exact ← decimal number
  let n ← binary64.round exact
  let secs ← binary64.round (n * unit)
  if 0 ≤ secs ∧ secs < 2 ^ 64 then some secs else none

/-- The nanoseconds of a number of seconds, rounded to the nearest. -/
def nanos (secs : ℚ) : ℕ := (roundEven (secs * 10 ^ 9)).toNat

/-- The nanoseconds of a text without white space around it, as `parse_duration` reads it. -/
def durationNanos (s : List Char) : Option ℕ :=
  match s.dropSuffix? ['m', 's'] with
  | some num => (parseU64 (Text.trim num)).map (· * 1000000)
  | none => (secondsOf (Text.trim (durationParts s).1) (durationParts s).2).map nanos

/-- The seconds of a unit of TraceQL. -/
def unitFactor : List Char → ℚ
  | ['m', 's'] => 1 / 1000
  | ['s'] => 1
  | ['m'] => 60
  | ['h'] => 3600
  | _ => 0

theorem secondsOf_nil (unit : ℚ) : secondsOf [] unit = none := rfl

section Read

variable {F64 : Type} [FloatOps F64] [Binary64 F64]

/-- What is let through and taken. -/
theorem fromSecsF64_of_passes_iff {limit secs : F64} (hlimit : value limit = some (2 ^ 64))
    {duration : ℕ} :
    (passes limit secs = true ∧ FloatOps.fromSecsF64 secs = some duration) ↔
      ∃ x, value secs = some x ∧ (0 ≤ x ∧ x < 2 ^ 64) ∧ nanos x = duration := by
  have hpasses : passes limit secs = true ↔ ∃ x, value secs = some x ∧ 0 ≤ x ∧ x ≤ 2 ^ 64 := by
    rw [← guard_eq_false_iff hlimit, passes, Bool.not_eq_true']
  rw [hpasses, fromSecsF64_eq]
  cases value secs with
  | none => simp
  | some x =>
    simp only [Option.bind_some, Option.some.injEq, exists_eq_left', nanos]
    split_ifs with hrange
    · simp [hrange, hrange.2.le]
    · simp [hrange]

/-- The number of a text is read as some seconds, which are let through and taken. -/
theorem exists_fromSecsF64_iff {f : F64 → F64} {u : ℚ} {limit : F64}
    (hlimit : value limit = some (2 ^ 64))
    (hsome : ∀ {a x}, value a = some x → value (f a) = binary64.round (x * u))
    (hnone : ∀ {a}, value a = none → value (f a) = none) (number : List Char) (duration : ℕ) :
    (∃ a, FloatOps.parse (String.ofList number) = some a ∧ passes limit (f a) = true ∧
        FloatOps.fromSecsF64 (f a) = some duration) ↔
      (secondsOf number u).map nanos = some duration := by
  simp only [fromSecsF64_of_passes_iff hlimit, secondsOf]
  cases hdecimal : decimal number with
  | none =>
    refine iff_of_false ?_ (by simp)
    rintro ⟨a, ha, x, hx, -⟩
    rw [hnone (parse_other (by rwa [String.toList_ofList]) ha)] at hx
    exact absurd hx (by simp)
  | some exact =>
    obtain ⟨a, ha, hvalue⟩ : ∃ a : F64, FloatOps.parse (String.ofList number) = some a ∧
        value a = binary64.round exact := parse_decimal (by rwa [String.toList_ofList])
    simp only [ha, Option.some.injEq, exists_eq_left', bind, Option.bind_some]
    cases hround : binary64.round exact with
    | none => simp [hnone (hvalue.trans hround)]
    | some n =>
      rw [hsome (hvalue.trans hround), Option.bind_some]
      cases binary64.round (n * u) with
      | none => simp
      | some secs =>
        simp only [Option.some.injEq, exists_eq_left', Option.bind_some]
        split_ifs with hrange <;> simp [hrange]

/-- **What `parse_duration` accepts**, and as what. -/
theorem parseDuration_eq_some_iff (s : String) {duration : ℕ} :
    parseDuration F64 s = some (some duration) ↔
      durationNanos (Text.trim s.toList) = some duration := by
  rw [parseDuration, durationNanos]
  generalize Text.trim s.toList = t
  by_cases hempty : t.isEmpty
  · obtain rfl := List.isEmpty_iff.mp hempty
    exact iff_of_false (by simp) (show ¬ (none : Option ℕ) = some duration by simp)
  rw [if_neg hempty]
  cases t.dropSuffix? ['m', 's'] with
  | some num => simp
  | none =>
    have hfactor : (durationParts t).2 ≤ 2 ^ 53 := by
      have hmem := durationParts_mem t
      simp only [List.mem_cons, List.not_mem_nil, or_false] at hmem
      omega
    have hmax : value (Float64.ofU64 (2 ^ 64 - 1) : F64) = some (2 ^ 64) := value_maxU64
    have hread := exists_fromSecsF64_iff hmax
      (f := fun n : F64 => FloatOps.mul n (Float64.ofU64 (durationParts t).2))
      (fun ha => value_mul ha (value_ofU64_small hfactor)) (value_mul_none _)
      (Text.trim (durationParts t).1) duration
    dsimp only
    rw [← hread]
    cases (FloatOps.parse (String.ofList (Text.trim (durationParts t).1)) : Option F64) with
    | none => simp
    | some n =>
      simp only [Option.some.injEq, exists_eq_left']
      generalize FloatOps.mul n (Float64.ofU64 (durationParts t).2) = total
      rw [guard_eq]
      cases passes (Float64.ofU64 (2 ^ 64 - 1)) total <;> simp

variable (F64) in
/-- The seconds of a unit are those of the number, scaled by its factor. -/
theorem exists_unitSeconds_eq_iff {rest unit : List Char} (h : literalUnit rest = some unit)
    (number : List Char) {duration : ℕ} :
    (∃ num secs, FloatOps.parse (String.ofList number) = some num ∧
        TraceQL.unitSeconds F64 num unit = some secs ∧
        passes (TraceQL.maxSeconds F64) secs = true ∧
        FloatOps.fromSecsF64 secs = some duration) ↔
      (secondsOf number (unitFactor unit)).map nanos = some duration := by
  have hunit := List.mem_of_find?_eq_some h
  simp only [List.mem_cons, List.not_mem_nil, or_false] at hunit
  have hmax : value (TraceQL.maxSeconds F64) = some (2 ^ 64) := value_maxSeconds
  obtain rfl | rfl | rfl | rfl := hunit
  · have hthousand : value (Float64.ofI64 1000 : F64) = some 1000 := value_ofI64_small (by decide)
    have hread := exists_fromSecsF64_iff hmax
      (f := fun num : F64 => FloatOps.div num (Float64.ofI64 1000))
      (fun {a x} ha => by rw [value_div ha hthousand (by norm_num), div_eq_mul_one_div])
      (fun ha => value_div_none ha hthousand) number duration
    simpa [TraceQL.unitSeconds, unitFactor] using hread
  · have hread := exists_fromSecsF64_iff hmax
      (f := fun num : F64 => num) (u := 1) (fun ha => by rw [mul_one, round_value ha, ha])
      (fun ha => ha) number duration
    simpa [TraceQL.unitSeconds, unitFactor] using hread
  · have hread := exists_fromSecsF64_iff hmax
      (f := fun num : F64 => FloatOps.mul num (Float64.ofI64 60)) (u := 60)
      (fun ha => value_mul ha (value_ofI64_small (by decide))) (value_mul_none _) number duration
    simpa [TraceQL.unitSeconds, unitFactor] using hread
  · have hread := exists_fromSecsF64_iff hmax
      (f := fun num : F64 => FloatOps.mul num (Float64.ofI64 3600)) (u := 3600)
      (fun ha => value_mul ha (value_ofI64_small (by decide))) (value_mul_none _) number duration
    simpa [TraceQL.unitSeconds, unitFactor] using hread

/-- **What is accepted as a literal**, and as what. -/
theorem parseDurationValue_eq_ok_iff [Combinators Char] {input rest : List Char} {duration : ℕ} :
    TraceQL.parseDurationValue F64 input = .ok (rest, duration) ↔
      ∃ unit, literalUnit (input.dropWhile isNumberChar) = some unit ∧
        rest = (input.dropWhile isNumberChar).drop unit.length ∧
        (secondsOf (input.takeWhile isNumberChar) (unitFactor unit)).map nanos = some duration := by
  have hdef : TraceQL.parseDurationValue F64 input =
      (takeWhile1 isNumberChar input).bind fun r =>
        (alt ([['m', 's'], ['s'], ['m'], ['h']].map tag) r.1).bind _ := rfl
  rw [hdef]
  by_cases hnumber : input.takeWhile isNumberChar = []
  · rw [takeWhile1_of_nil hnumber, hnumber]
    simp [Except.bind, secondsOf_nil]
  rw [takeWhile1_eq hnumber]
  obtain ⟨hfound, hmissing⟩ := alt_tags (show [['m', 's'], ['s'], ['m'], ['h']] ≠ [] by simp)
    (input.dropWhile isNumberChar)
  cases hunit : literalUnit (input.dropWhile isNumberChar) with
  | none =>
    obtain ⟨e, he⟩ := hmissing hunit
    show Except.bind (alt _ _) _ = _ ↔ _
    rw [he]
    simp [Except.bind]
  | some unit =>
    show Except.bind (alt _ _) _ = _ ↔ _
    rw [hfound unit hunit]
    simp only [Option.some.injEq, exists_eq_left',
      ← exists_unitSeconds_eq_iff F64 hunit]
    dsimp only [Except.bind]
    cases (FloatOps.parse (String.ofList (input.takeWhile isNumberChar)) : Option F64) with
    | none => simp [throw, throwThe, MonadExceptOf.throw]
    | some num =>
      obtain ⟨secs, hsecs⟩ := unitSeconds_isSome hunit num
      have hright : (∃ num' secs', some num = some num' ∧
          TraceQL.unitSeconds F64 num' unit = some secs' ∧
          passes (TraceQL.maxSeconds F64) secs' = true ∧
          FloatOps.fromSecsF64 secs' = some duration) ↔
          passes (TraceQL.maxSeconds F64) secs = true ∧
            FloatOps.fromSecsF64 secs = some duration := by
        constructor
        · rintro ⟨_, _, hnum, hsecs', hpass, htaken⟩
          obtain rfl := Option.some.inj hnum
          obtain rfl := Option.some.inj (hsecs.symm.trans hsecs')
          exact ⟨hpass, htaken⟩
        · rintro ⟨hpass, htaken⟩
          exact ⟨num, secs, rfl, hsecs, hpass, htaken⟩
      rw [hright]
      simp only [hsecs, guard_eq]
      cases passes (TraceQL.maxSeconds F64) secs with
      | false => simp [throw, throwThe, MonadExceptOf.throw]
      | true =>
        cases FloatOps.fromSecsF64 secs with
        | none => simp [throw, throwThe, MonadExceptOf.throw]
        | some duration' => simp [pure, Except.pure, eq_comm]

end Read

/-! ### Milliseconds -/

/-- **A number of milliseconds that both parsers read alike**: a whole number of them, which is
rounded by at most half a nanosecond when it is scaled to seconds, or nothing that either reads. -/
def MillisExact (number : List Char) : Prop :=
  match parseU64 number with
  | some n => ∃ secs, secondsOf number (1 / 1000) = some secs ∧
      |secs * 10 ^ 9 - n * 10 ^ 6| ≤ 1 / 2
  | none => secondsOf number (1 / 1000) = none

theorem secondsOf_mem {number : List Char} {unit secs : ℚ} (h : secondsOf number unit = some secs) :
    0 ≤ secs ∧ secs < 2 ^ 64 := by
  obtain ⟨_, -, h⟩ := Option.bind_eq_some_iff.mp h
  obtain ⟨_, -, h⟩ := Option.bind_eq_some_iff.mp h
  obtain ⟨secs', -, h⟩ := Option.bind_eq_some_iff.mp h
  split_ifs at h with hrange
  exact Option.some.inj h ▸ hrange

/-- A whole number of a whole unit is read exactly. -/
theorem secondsOf_of_parseDigits {number : List Char} {n : ℕ} (h : parseDigits number = some n)
    (unit : ℕ) (hn : n ≤ 2 ^ 53) (hunit : n * unit ≤ 2 ^ 53) :
    secondsOf number unit = some (n * unit : ℕ) := by
  have hround : ∀ {k : ℕ}, k ≤ 2 ^ 53 → binary64.round (k : ℚ) = some (k : ℚ) := by
    intro k hk
    have hcast := Binary64.round_intCast (i := k) (by rw [Nat.abs_cast]; exact_mod_cast hk)
    exact_mod_cast hcast
  have hlt : ((n * unit : ℕ) : ℚ) < 2 ^ 64 := by
    exact_mod_cast hunit.trans_lt (by norm_num)
  rw [secondsOf, decimal_of_parseDigits h]
  simp only [bind, Option.bind_some, hround hn, ← Nat.cast_mul, hround hunit]
  exact if_pos ⟨Nat.cast_nonneg _, hlt⟩

theorem nanos_natCast (n : ℕ) : nanos n = n * 1000000000 := by
  have hcast : ((n : ℚ) * 10 ^ 9) = ((n * 1000000000 : ℕ) : ℤ) := by
    push_cast
    norm_num
  rw [nanos, hcast, roundEven_intCast, Int.toNat_natCast]

/-- A number of nanoseconds that is even is the nearest one up to half a nanosecond away. -/
theorem nanos_eq_iff {secs : ℚ} (h : 0 ≤ secs) (n : ℕ) :
    nanos secs = n * 1000000 ↔ |secs * 10 ^ 9 - n * 10 ^ 6| ≤ 1 / 2 := by
  have hnonneg : 0 ≤ roundEven (secs * 10 ^ 9) := le_roundEven (by push_cast; positivity)
  have hcast : nanos secs = n * 1000000 ↔ roundEven (secs * 10 ^ 9) = (n : ℤ) * 1000000 := by
    rw [nanos]
    omega
  have heven : Even ((n : ℤ) * 1000000) := (show Even (1000000 : ℤ) by decide).mul_left _
  rw [hcast, roundEven_eq_iff, or_iff_right_of_imp fun h => ⟨heven, h.1.le, h.2.le⟩,
    and_iff_right heven, abs_le]
  push_cast
  constructor
  · rintro ⟨hlo, hhi⟩
    constructor <;> linarith
  · rintro ⟨hlo, hhi⟩
    constructor <;> linarith

/-- Both parsers read a number of milliseconds alike exactly when it is so. -/
theorem millisExact_iff (number : List Char) :
    MillisExact number ↔
      (parseU64 number).map (· * 1000000) = (secondsOf number (1 / 1000)).map nanos := by
  rw [MillisExact]
  cases parseU64 number with
  | none => simp [eq_comm]
  | some n =>
    dsimp only
    rw [Option.map_some, eq_comm, Option.map_eq_some_iff]
    refine exists_congr fun secs => and_congr_right fun hsecs => ?_
    exact (nanos_eq_iff (secondsOf_mem hsecs).1 n).symm

theorem parseU64_of_parseDigits {s : List Char} {n : ℕ} (h : parseDigits s = some n)
    (hn : n < 2 ^ 64) : parseU64 s = some n := by
  have hdigits := all_isDigit_of_parseDigits h
  rw [parseU64.eq_def]
  split
  · exact absurd (hdigits '+' List.mem_cons_self) (by decide)
  · rw [h]
    exact Option.filter_eq_some_iff.mpr ⟨rfl, decide_eq_true hn⟩

/-- Up to ninety-seven days, milliseconds are read alike. -/
theorem millisExact_of_parseDigits {number : List Char} {n : ℕ} (h : parseDigits number = some n)
    (hn : n < 8388608000) : MillisExact number := by
  have hcast : (n : ℚ) < 8388608000 := by exact_mod_cast hn
  have hnonneg : (0 : ℚ) ≤ n * (1 / 1000) := by positivity
  have hrange : |(n : ℚ) * (1 / 1000)| < 2 ^ (23 : ℤ) := by
    rw [abs_of_nonneg hnonneg]
    norm_num
    linarith
  have hround : binary64.round n = some (n : ℚ) := by
    have hself := round_intCast (i := n) (by rw [Nat.abs_cast]; omega)
    exact_mod_cast hself
  have herror := BinaryFormat.abs_nearest_sub_le_of_lt (f := binary64) hrange (by decide)
  set secs := binary64.nearest (n * (1 / 1000)) with hsecs
  have hmin : 0 ≤ secs := BinaryFormat.nearest_nonneg hnonneg
  have hmax : secs ≤ 2 ^ (23 : ℤ) :=
    BinaryFormat.nearest_le_two_zpow (by decide) (by decide) (abs_lt.mp hrange).2
  have hscaled : binary64.round (n * (1 / 1000)) = some secs := by
    refine BinaryFormat.round_eq_some_iff_nearest.mpr ⟨rfl, ?_⟩
    rw [abs_of_nonneg hmin]
    exact hmax.trans_lt (zpow_lt_zpow_right₀ (by norm_num) (by decide))
  have hread : secondsOf number (1 / 1000) = some secs := by
    have hsmall : secs < 2 ^ 64 := hmax.trans_lt (by norm_num)
    rw [secondsOf, decimal_of_parseDigits h]
    simp only [bind, Option.bind_some, hround, hscaled, hmin, hsmall, and_self, if_true]
  rw [MillisExact, parseU64_of_parseDigits h (by omega)]
  refine ⟨secs, hread, ?_⟩
  have hhalf : (2 : ℚ) ^ ((23 : ℤ) - binary64.precision) / 2 = 1 / 2147483648 := by
    show (2 : ℚ) ^ (-30 : ℤ) / 2 = _
    norm_num
  rw [hhalf] at herror
  obtain ⟨hlo, hhi⟩ := abs_le.mp herror
  rw [abs_le]
  constructor <;> linarith

/-! ### The characters of a number -/

/-- A character of a number, as `str::parse::<f64>` reads one. -/
def isDecimalChar (c : Char) : Bool := c.isDigit || decide (c ∈ ['.', 'e', 'E', '+', '-'])

theorem isDecimalChar_of_isDigit {c : Char} (h : c.isDigit = true) : isDecimalChar c = true := by
  simp [isDecimalChar, h]

theorem isDecimalChar_of_parseDigits {s : List Char} {n : ℕ} (h : parseDigits s = some n) :
    ∀ c ∈ s, isDecimalChar c = true :=
  fun c hc => isDecimalChar_of_isDigit (all_isDigit_of_parseDigits h c hc)

theorem isDecimalChar_of_parseU64 {s : List Char} {n : ℕ} (h : parseU64 s = some n) :
    ∀ c ∈ s, isDecimalChar c = true := by
  rw [parseU64.eq_def] at h
  have hvalue := (Option.mem_filter_iff.mp h).1
  simp only [Option.mem_def] at hvalue
  split at hvalue
  · intro c hc
    obtain rfl | hc := List.mem_cons.mp hc
    · rfl
    · exact isDecimalChar_of_parseDigits hvalue c hc
  · exact isDecimalChar_of_parseDigits hvalue

theorem isDecimalChar_of_significand {s : List Char} {x : ℚ} (h : significand s = some x) :
    ∀ c ∈ s, isDecimalChar c = true := by
  rw [significand] at h
  intro c hc
  rw [← List.takeWhile_append_dropWhile (p := Char.isDigit) (l := s)] at hc
  obtain hc | hc := List.mem_append.mp hc
  · exact isDecimalChar_of_isDigit (List.mem_takeWhile_imp hc)
  split at h
  · next heq => exact absurd hc (by simp [heq])
  · next fraction heq =>
    obtain ⟨_, h, -⟩ := Option.map_eq_some_iff.mp h
    obtain ⟨n, hn, -⟩ := Option.bind_eq_some_iff.mp h
    rw [heq] at hc
    obtain rfl | hc := List.mem_cons.mp hc
    · rfl
    · exact isDecimalChar_of_parseDigits hn c (List.mem_append_right _ hc)
  · exact absurd h (by simp)

theorem isDecimalChar_of_exponent {s : List Char} {e : ℤ} (h : exponent s = some e) :
    ∀ c ∈ s.tail, isDecimalChar c = true := by
  rw [exponent.eq_def] at h
  split at h
  · simp
  all_goals
    obtain ⟨_, h, -⟩ := Option.map_eq_some_iff.mp h
    obtain ⟨n, hn, -⟩ := Option.bind_eq_some_iff.mp h
    simp only [List.tail_cons]
  · intro c hc
    obtain rfl | hc := List.mem_cons.mp hc
    · rfl
    · exact isDecimalChar_of_parseDigits hn c hc
  · intro c hc
    obtain rfl | hc := List.mem_cons.mp hc
    · rfl
    · exact isDecimalChar_of_parseDigits hn c hc
  · exact isDecimalChar_of_parseDigits hn

theorem isDecimalChar_of_unsignedDecimal {s : List Char} {x : ℚ} (h : unsignedDecimal s = some x) :
    ∀ c ∈ s, isDecimalChar c = true := by
  rw [unsignedDecimal] at h
  obtain ⟨value, hvalue, h⟩ := Option.bind_eq_some_iff.mp h
  obtain ⟨exp, hexp, -⟩ := Option.bind_eq_some_iff.mp h
  intro c hc
  rw [← List.takeWhile_append_dropWhile (p := fun c => c != 'e' && c != 'E') (l := s)] at hc
  obtain hc | hc := List.mem_append.mp hc
  · exact isDecimalChar_of_significand hvalue c hc
  cases hrest : s.dropWhile (fun c => c != 'e' && c != 'E') with
  | nil => exact absurd hc (by simp [hrest])
  | cons d rest =>
    rw [hrest] at hc hexp
    obtain rfl | hc := List.mem_cons.mp hc
    · -- what stopped the significand is the sign of an exponent
      have hstop := List.head?_dropWhile_not (fun c => c != 'e' && c != 'E') s
      rw [hrest, List.head?_cons] at hstop
      have hcases : c = 'e' ∨ c = 'E' := by
        by_contra hnot
        obtain ⟨hsmall, hcapital⟩ := not_or.mp hnot
        simp [hsmall, hcapital] at hstop
      obtain rfl | rfl := hcases <;> rfl
    · exact isDecimalChar_of_exponent hexp c hc

/-- The characters of a number. -/
theorem isDecimalChar_of_decimal {s : List Char} {x : ℚ} (h : decimal s = some x) :
    ∀ c ∈ s, isDecimalChar c = true := by
  rw [decimal.eq_def] at h
  split at h
  · obtain ⟨n, hn, -⟩ := Option.map_eq_some_iff.mp h
    intro c hc
    obtain rfl | hc := List.mem_cons.mp hc
    · rfl
    · exact isDecimalChar_of_unsignedDecimal hn c hc
  · intro c hc
    obtain rfl | hc := List.mem_cons.mp hc
    · rfl
    · exact isDecimalChar_of_unsignedDecimal h c hc
  · exact isDecimalChar_of_unsignedDecimal h

/-! ### White space around a text -/

theorem isWhitespace_of_isMultispace {c : Char} (h : isMultispace c = true) :
    Text.isWhitespace c = true := by
  have hc : c ∈ [' ', '\t', '\r', '\n'] := of_decide_eq_true h
  simp only [List.mem_cons, List.not_mem_nil, or_false] at hc
  obtain rfl | rfl | rfl | rfl := hc <;> rfl

theorem Text.trimEnd_append_of_all (l : List Char) {r : List Char}
    (h : ∀ c ∈ r, Text.isWhitespace c = true) : Text.trimEnd (l ++ r) = Text.trimEnd l := by
  induction r using List.reverseRecOn with
  | nil => rw [List.append_nil]
  | append_singleton r c ih =>
    rw [← List.append_assoc, Text.trimEnd,
      List.rdropWhile_concat_pos _ _ _ (h c (List.mem_append_right _ List.mem_cons_self))]
    exact ih fun d hd => h d (List.mem_append_left _ hd)

theorem Text.trimEnd_append (l : List Char) {r : List Char}
    (h : ¬ ∀ c ∈ r, Text.isWhitespace c = true) :
    Text.trimEnd (l ++ r) = l ++ Text.trimEnd r := by
  induction r using List.reverseRecOn with
  | nil => exact absurd (by simp) h
  | append_singleton r c ih =>
    rw [← List.append_assoc, Text.trimEnd, Text.trimEnd, List.rdropWhile_concat,
      List.rdropWhile_concat]
    split
    · next hc =>
      refine ih fun hr => h fun d hd => ?_
      obtain hd | hd := List.mem_append.mp hd
      · exact hr d hd
      · exact List.mem_singleton.mp hd ▸ hc
    · exact List.append_assoc _ _ _

/-- Only white space is trimmed. -/
theorem Text.mem_trim {s : List Char} {c : Char} (h : c ∈ s) (hc : Text.isWhitespace c = false) :
    c ∈ Text.trim s := by
  have hstart : c ∈ Text.trimStart s := by
    rw [← List.takeWhile_append_dropWhile (p := Text.isWhitespace) (l := s)] at h
    obtain h | h := List.mem_append.mp h
    · exact absurd (List.mem_takeWhile_imp h) (by simp [hc])
    · exact h
  rw [← List.rdropWhile_append_rtakeWhile (p := Text.isWhitespace) (l := Text.trimStart s)]
    at hstart
  obtain h | h := List.mem_append.mp hstart
  · exact h
  · exact absurd (List.mem_rtakeWhile_imp h) (by simp [hc])

/-! ### The unit of a text -/

theorem dropSuffix?_append (s suffix : List Char) : (s ++ suffix).dropSuffix? suffix = some s :=
  List.dropSuffix?_eq_some_iff.mpr ⟨suffix, rfl, beq_self_eq_true suffix⟩

theorem dropSuffix?_concat_of_ne (s p : List Char) {a b : Char} (h : a ≠ b) :
    (s ++ [a]).dropSuffix? (p ++ [b]) = none := by
  rw [dropSuffix?_eq_none_iff]
  rintro ⟨q, hq⟩
  rw [← List.append_assoc] at hq
  exact h (List.singleton_inj.mp (List.append_inj_right' hq rfl)).symm

theorem not_isWhitespace_of_isNumberChar {c : Char} (h : isNumberChar c = true) :
    Text.isWhitespace c = false := by
  obtain h | h := Bool.or_eq_true_iff.mp h
  · exact not_isWhitespace_of_isDigit h
  · obtain rfl := beq_iff_eq.mp h
    rfl

/-- **A number with a unit of TraceQL**, as `parse_duration` reads it: milliseconds as a whole
number, and any other unit as TraceQL does. -/
theorem durationNanos_append {number unit : List Char}
    (hnumber : ∀ c ∈ number, isNumberChar c = true)
    (hunit : unit ∈ [['m', 's'], ['s'], ['m'], ['h']]) :
    durationNanos (number ++ unit) =
      if unit = ['m', 's'] then (parseU64 number).map (· * 1000000)
      else (secondsOf number (unitFactor unit)).map nanos := by
  have htrim : Text.trim number = number :=
    Text.trim_eq_self fun c hc => not_isWhitespace_of_isNumberChar (hnumber c hc)
  have hmillis : (number ++ ['s']).dropSuffix? ['m', 's'] = none := by
    rw [dropSuffix?_eq_none_iff]
    rintro ⟨q, hq⟩
    have hlast : q ++ ['m'] = number := by
      have hsplit : q ++ ['m'] ++ ['s'] = number ++ ['s'] := by
        rw [← hq, List.append_assoc]
        rfl
      exact List.append_cancel_right hsplit
    have hm := hnumber 'm' (by simp [← hlast])
    exact absurd hm (by decide)
  simp only [List.mem_cons, List.not_mem_nil, or_false] at hunit
  obtain rfl | rfl | rfl | rfl := hunit
  · rw [durationNanos, dropSuffix?_append, if_pos rfl]
    dsimp only
    rw [htrim]
  · have hparts : durationParts (number ++ ['s']) = (number, 1) := by
      rw [durationParts, dropSuffix?_append]
    rw [durationNanos, hmillis, hparts, htrim, if_neg (by simp)]
    simp [unitFactor]
  · have hms : (number ++ ['m']).dropSuffix? ['m', 's'] = none :=
      dropSuffix?_concat_of_ne number ['m'] (by decide)
    have hparts : durationParts (number ++ ['m']) = (number, 60) := by
      have hs : (number ++ ['m']).dropSuffix? ['s'] = none :=
        dropSuffix?_concat_of_ne number [] (by decide)
      rw [durationParts, hs, dropSuffix?_append]
    rw [durationNanos, hms, hparts, htrim, if_neg (by simp)]
    simp [unitFactor]
  · have hms : (number ++ ['h']).dropSuffix? ['m', 's'] = none :=
      dropSuffix?_concat_of_ne number ['m'] (by decide)
    have hparts : durationParts (number ++ ['h']) = (number, 3600) := by
      have hs : (number ++ ['h']).dropSuffix? ['s'] = none :=
        dropSuffix?_concat_of_ne number [] (by decide)
      have hm : (number ++ ['h']).dropSuffix? ['m'] = none :=
        dropSuffix?_concat_of_ne number [] (by decide)
      rw [durationParts, hs, hm, dropSuffix?_append]
    rw [durationNanos, hms, hparts, htrim, if_neg (by simp)]
    simp [unitFactor]

theorem isDecimalChar_of_secondsOf {number : List Char} {unit secs : ℚ}
    (h : secondsOf number unit = some secs) : ∀ c ∈ number, isDecimalChar c = true := by
  obtain ⟨exact, hexact, -⟩ := Option.bind_eq_some_iff.mp h
  exact isDecimalChar_of_decimal hexact

theorem eq_append_of_dropSuffix? {s p suffix : List Char} (h : s.dropSuffix? suffix = some p) :
    s = p ++ suffix := by
  obtain ⟨suffix', heq, hsuffix⟩ := List.dropSuffix?_eq_some_iff.mp h
  rw [heq, beq_iff_eq.mp hsuffix]

theorem durationParts_eq (s : List Char) : ∃ suffix ∈ [['s'], ['m'], ['h'], ['d'], []],
    s = (durationParts s).1 ++ suffix := by
  rw [durationParts]
  cases hs : s.dropSuffix? ['s'] with
  | some n => exact ⟨['s'], by simp, eq_append_of_dropSuffix? hs⟩
  | none =>
    cases hm : s.dropSuffix? ['m'] with
    | some n => exact ⟨['m'], by simp, eq_append_of_dropSuffix? hm⟩
    | none =>
      cases hh : s.dropSuffix? ['h'] with
      | some n => exact ⟨['h'], by simp, eq_append_of_dropSuffix? hh⟩
      | none =>
        cases hd : s.dropSuffix? ['d'] with
        | some n => exact ⟨['d'], by simp, eq_append_of_dropSuffix? hd⟩
        | none => exact ⟨[], by simp, (List.append_nil s).symm⟩

/-- Before its unit, a text of a duration has only the characters of a number and white space. -/
theorem exists_unit_of_durationNanos {s : List Char} {duration : ℕ}
    (h : durationNanos s = some duration) :
    ∃ num, ∃ suffix ∈ [['m', 's'], ['s'], ['m'], ['h'], ['d'], []], s = num ++ suffix ∧
      ∀ c ∈ num, Text.isWhitespace c = false → isDecimalChar c = true := by
  rw [durationNanos] at h
  split at h
  · next num hnum =>
    obtain ⟨n, hn, -⟩ := Option.map_eq_some_iff.mp h
    exact ⟨num, ['m', 's'], by simp, eq_append_of_dropSuffix? hnum,
      fun c hc hspace => isDecimalChar_of_parseU64 hn c (Text.mem_trim hc hspace)⟩
  · obtain ⟨secs, hsecs, -⟩ := Option.map_eq_some_iff.mp h
    obtain ⟨suffix, hmem, heq⟩ := durationParts_eq s
    exact ⟨(durationParts s).1, suffix, List.mem_cons_of_mem _ hmem, heq,
      fun c hc hspace => isDecimalChar_of_secondsOf hsecs c (Text.mem_trim hc hspace)⟩

/-- From a letter that is in no number on, a text of a duration is its unit. -/
theorem suffix_of_durationNanos {l r : List Char} {c : Char} {duration : ℕ}
    (h : durationNanos (l ++ c :: r) = some duration) (hspace : Text.isWhitespace c = false)
    (hc : isDecimalChar c = false) :
    ∃ suffix ∈ [['m', 's'], ['s'], ['m'], ['h'], ['d'], []], c :: r <:+ suffix := by
  obtain ⟨num, suffix, hmem, heq, hnum⟩ := exists_unit_of_durationNanos h
  refine ⟨suffix, hmem, ?_⟩
  obtain ⟨k, rfl, hk⟩ | ⟨k, rfl, hk⟩ := List.append_eq_append_iff.mp heq
  · cases k with
    | nil => exact hk ▸ List.suffix_rfl
    | cons d k =>
      obtain ⟨rfl, -⟩ := List.cons.inj hk
      have hdecimal := hnum c (List.mem_append_right _ List.mem_cons_self) hspace
      exact absurd hdecimal (by simp [hc])
  · exact ⟨k, hk.symm⟩

/-! ### Texts that start with a literal -/

/-- The number and the unit that a text starts with, and what comes after them. -/
def literalParts (s : List Char) : Option (List Char × List Char × List Char) :=
  let s := s.dropWhile isMultispace
  (literalUnit (s.dropWhile isNumberChar)).map fun unit =>
    (s.takeWhile isNumberChar, unit, (s.dropWhile isNumberChar).drop unit.length)

section Parts

variable {s number unit rest : List Char}

theorem mem_of_literalUnit (h : literalUnit rest = some unit) :
    unit ∈ [['m', 's'], ['s'], ['m'], ['h']] :=
  List.mem_of_find?_eq_some h

theorem eq_of_literalUnit (h : literalUnit rest = some unit) :
    rest = unit ++ rest.drop unit.length := by
  have hprefix := List.find?_some (p := fun w : List Char => w.isPrefixOf rest) h
  obtain ⟨rest', rfl⟩ := List.isPrefixOf_iff_prefix.mp hprefix
  rw [List.drop_left]

theorem literalParts_spec (h : literalParts s = some (number, unit, rest)) :
    s.dropWhile isMultispace = number ++ (unit ++ rest) ∧
      (∀ c ∈ number, isNumberChar c = true) ∧ literalUnit (unit ++ rest) = some unit := by
  obtain ⟨unit', hunit, heq⟩ := Option.map_eq_some_iff.mp h
  obtain ⟨rfl, hrest⟩ := Prod.mk.inj heq
  obtain ⟨rfl, rfl⟩ := Prod.mk.inj hrest
  rw [← eq_of_literalUnit hunit, List.takeWhile_append_dropWhile]
  exact ⟨rfl, fun c hc => List.mem_takeWhile_imp hc, hunit⟩

theorem trimStart_of_literalParts (h : literalParts s = some (number, unit, rest)) :
    Text.trimStart s = number ++ (unit ++ rest) := by
  obtain ⟨heq, hnumber, hunit⟩ := literalParts_spec h
  have hhead : (number ++ (unit ++ rest)).dropWhile Text.isWhitespace =
      number ++ (unit ++ rest) := by
    cases number with
    | nil =>
      have hmem := mem_of_literalUnit hunit
      simp only [List.mem_cons, List.not_mem_nil, or_false] at hmem
      obtain rfl | rfl | rfl | rfl := hmem <;> exact List.dropWhile_cons_of_neg (by decide)
    | cons c number =>
      have hc := not_isWhitespace_of_isNumberChar (hnumber c List.mem_cons_self)
      exact List.dropWhile_cons_of_neg (by simp [hc])
  rw [Text.trimStart, ← List.takeWhile_append_dropWhile (p := isMultispace) (l := s),
    List.dropWhile_append_of_pos fun c hc =>
      isWhitespace_of_isMultispace (List.mem_takeWhile_imp hc), heq, hhead]

/-- A literal with white space around it. -/
theorem trim_of_literalParts (h : literalParts s = some (number, unit, rest))
    (hrest : ∀ c ∈ rest, Text.isWhitespace c = true) : Text.trim s = number ++ unit := by
  obtain ⟨-, hnumber, hunit⟩ := literalParts_spec h
  rw [Text.trim, trimStart_of_literalParts h, ← List.append_assoc,
    Text.trimEnd_append_of_all _ hrest, Text.trimEnd, List.rdropWhile_eq_self_iff]
  have hmem := mem_of_literalUnit hunit
  simp only [List.mem_cons, List.not_mem_nil, or_false] at hmem
  intro hne
  obtain rfl | rfl | rfl | rfl := hmem <;> simp <;> decide

/-- **A duration with a unit of TraceQL** has nothing but white space after it. -/
theorem all_isWhitespace_of_durationNanos (h : literalParts s = some (number, unit, rest))
    {duration : ℕ} (hduration : durationNanos (Text.trim s) = some duration) :
    ∀ c ∈ rest, Text.isWhitespace c = true := by
  obtain ⟨-, hnumber, hunit⟩ := literalParts_spec h
  by_contra hrest
  have htrim : Text.trim s = number ++ (unit ++ Text.trimEnd rest) := by
    rw [Text.trim, trimStart_of_literalParts h, ← List.append_assoc,
      Text.trimEnd_append _ hrest, List.append_assoc]
  have hcore : Text.trimEnd rest ≠ [] := fun hnil => hrest (List.rdropWhile_eq_nil_iff.mp hnil)
  obtain ⟨d, core, hcons⟩ := List.exists_cons_of_ne_nil hcore
  rw [htrim, hcons] at hduration
  -- then the letters of the unit are those of `ms`, which would have been taken
  have hmillis : ∀ {x : Char} {r : List Char}, unit ++ d :: core = x :: r →
      Text.isWhitespace x = false → isDecimalChar x = false → x :: r = ['m', 's'] := by
    intro x r hxr hspace hx
    rw [hxr] at hduration
    obtain ⟨suffix, hmem, hsuffix⟩ := suffix_of_durationNanos hduration hspace hx
    have hlong : 2 ≤ (x :: r).length := by
      have hunit' := mem_of_literalUnit hunit
      rw [← hxr]
      simp only [List.mem_cons, List.not_mem_nil, or_false] at hunit'
      obtain rfl | rfl | rfl | rfl := hunit' <;> simp
    have hlength := hsuffix.length_le
    simp only [List.mem_cons, List.not_mem_nil, or_false] at hmem
    obtain rfl | rfl | rfl | rfl | rfl | rfl := hmem
    · exact hsuffix.eq_of_length (le_antisymm hlength hlong)
    all_goals exact absurd (hlong.trans hlength) (by decide)
  have hmem := mem_of_literalUnit hunit
  simp only [List.mem_cons, List.not_mem_nil, or_false] at hmem
  obtain rfl | rfl | rfl | rfl := hmem
  · exact absurd (hmillis rfl (by decide) (by decide)) (by simp)
  · exact absurd (hmillis rfl (by decide) (by decide)) (by simp)
  · have heq := hmillis rfl (by decide) (by decide)
    obtain ⟨rfl, -⟩ : d = 's' ∧ core = [] := by simpa using heq
    obtain ⟨rest', rfl⟩ : ∃ rest', rest = 's' :: rest' := by
      obtain ⟨l, hl⟩ : Text.trimEnd rest <+: rest := List.rdropWhile_prefix _ _
      rw [hcons] at hl
      exact ⟨_, hl.symm⟩
    exact absurd hunit (by simp [literalUnit, List.isPrefixOf])
  · exact absurd (hmillis rfl (by decide) (by decide)) (by simp)

/-! ### Literals in a text -/

theorem takeWhile_append_cons {p : Char → Bool} {c : Char} (hc : p c = false) (l r : List Char) :
    (l ++ c :: r).takeWhile p = l.takeWhile p := by
  induction l with
  | nil => simp [hc]
  | cons d l ih => rw [List.cons_append, List.takeWhile_cons, List.takeWhile_cons, ih]

theorem dropWhile_append_cons {p : Char → Bool} {c : Char} (hc : p c = false) (l r : List Char) :
    (l ++ c :: r).dropWhile p = l.dropWhile p ++ c :: r := by
  induction l with
  | nil => simp [hc]
  | cons d l ih =>
    rw [List.cons_append, List.dropWhile_cons, List.dropWhile_cons, ih]
    split <;> rfl

/-- A unit does not go on after a space. -/
theorem literalUnit_append_space (l r : List Char) :
    literalUnit (l ++ ' ' :: r) = literalUnit l := by
  rcases l with _ | ⟨c, _ | ⟨d, l⟩⟩ <;> simp [literalUnit, List.find?_cons, List.isPrefixOf]

variable {F64 : Type} [FloatOps F64] [Binary64 F64]

/-- **The literal that a text starts with**, when other text is written after it. -/
theorem parseDurationValue_append_iff [Combinators Char] {u r : List Char} {duration : ℕ}
    (hu : ∀ c ∈ (u.dropWhile isMultispace).head?, isNumberChar c = false) :
    TraceQL.parseDurationValue F64 ((s ++ ' ' :: u).dropWhile isMultispace) = .ok (r, duration) ↔
      ∃ number unit rest, literalParts s = some (number, unit, rest) ∧ r = rest ++ ' ' :: u ∧
        (secondsOf number (unitFactor unit)).map nanos = some duration := by
  rw [parseDurationValue_eq_ok_iff, List.dropWhile_append, literalParts]
  cases hskip : s.dropWhile isMultispace with
  | nil =>
    -- what is written after the white space is no number
    have hnumber : (u.dropWhile isMultispace).takeWhile isNumberChar = [] := by
      cases h : u.dropWhile isMultispace with
      | nil => rfl
      | cons c u => exact List.takeWhile_cons_of_neg (by simp [hu c (by simp [h])])
    have hspace : (' ' :: u).dropWhile isMultispace = u.dropWhile isMultispace :=
      List.dropWhile_cons_of_pos (by decide)
    have hnone : literalUnit [] = none := by decide
    simp [hspace, hnumber, secondsOf_nil, hnone]
  | cons c t =>
    rw [List.isEmpty_cons, if_neg Bool.false_ne_true, takeWhile_append_cons (by decide),
      dropWhile_append_cons (by decide), literalUnit_append_space]
    have hdrop : ∀ {unit}, literalUnit ((c :: t).dropWhile isNumberChar) = some unit →
        ((c :: t).dropWhile isNumberChar ++ ' ' :: u).drop unit.length =
          ((c :: t).dropWhile isNumberChar).drop unit.length ++ ' ' :: u := by
      intro unit hunit
      refine List.drop_append_of_le_length ?_
      rw [eq_of_literalUnit hunit, List.length_append]
      exact Nat.le_add_right _ _
    simp only [Option.map_eq_some_iff]
    constructor
    · rintro ⟨unit, hunit, rfl, secs, hsecs⟩
      exact ⟨_, _, _, ⟨unit, hunit, rfl⟩, hdrop hunit, secs, hsecs⟩
    · rintro ⟨_, _, _, ⟨unit, hunit, heq⟩, rfl, secs, hsecs⟩
      obtain ⟨rfl, hrest⟩ := Prod.mk.inj heq
      obtain ⟨rfl, rfl⟩ := Prod.mk.inj hrest
      exact ⟨unit, hunit, (hdrop hunit).symm, secs, hsecs⟩

end Parts

end Aniani
