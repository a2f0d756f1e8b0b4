import Aniani.Query.Binary64
import Aniani.Query.LogQL.Parser
import Aniani.Query.TraceQL.Parser

/-!
# Durations that are too long

`Duration::from_secs_f64` panics for `2 ^ 64` seconds and more. The duration parsers refuse a number
of seconds above the greatest one of a `Duration` before they call it. That one is compared as a
`f64`, and the nearest `f64` is `2 ^ 64` itself: a literal that is rounded to exactly `2 ^ 64`
seconds is let through.

## Main definitions

* `limitOf` — the literals of each unit that are rounded to `2 ^ 64` seconds

## Main results

* `exists_round_mul_iff` — these are the literals of a unit that are rounded to `2 ^ 64` seconds
* `durations_safe_iff` — the texts that the parsers do not panic on
-/

namespace Aniani

/-! ### What is rounded to `2 ^ 64` seconds -/

/-- The numbers of a unit of so many seconds that are rounded to `2 ^ 64` seconds: a number of seconds
up to halfway to the next `f64` on either side, and of a longer unit a number whose nearest `f64` is
that close to `2 ^ 64` seconds in turn. -/
def limitOf : ℕ → Set ℚ
  | 1 => Set.Icc (2 ^ 64 - 1024) (2 ^ 64 + 2048)
  | 60 => Set.Ioo (307445734561825856 - 32) (307445734561825856 + 32)
  | 3600 => Set.Ioo (5124095576030431 - 1 / 2) (5124095576030431 + 1 / 2)
  | 86400 => Set.Ioc (6832127434707241 / 32 - 1 / 64) (6832127434707242 / 32 + 1 / 64)
  | _ => ∅

/-- The numbers of milliseconds that are rounded to `2 ^ 64` seconds. -/
def millisLimit : Set ℚ := Set.Icc (2 ^ 64 * 1000 - 1048576) (2 ^ 64 * 1000 + 1048576)

/-- A `f64` between two powers of two is a multiple of its last bit. -/
theorem eq_mul_of_round_mem {x n : ℚ} {e : ℤ} (h : binary64.round x = some n) (he : -1022 ≤ e)
    (hlo : 2 ^ e ≤ n) (hhi : n < 2 ^ (e + 1)) : ∃ k : ℤ, n = k * 2 ^ (e - 52) := by
  have hself := BinaryFormat.round_of_round_eq_some (by decide) h
  have hnearest := (BinaryFormat.round_eq_some_iff_nearest.mp hself).1
  have hbit : binary64.lastBit n = e - 52 := by
    rw [BinaryFormat.lastBit_of_mem hlo hhi]
    show max (e + 1 - 53) (-1074) = e - 52
    omega
  rw [BinaryFormat.nearest, hbit] at hnearest
  exact ⟨_, hnearest.symm⟩

/-- What is rounded to an odd number of 53 bits. -/
theorem round_eq_some_odd_mul_iff {x : ℚ} {m k : ℤ} (hm : ¬ Even m) (hlo : 2 ^ 53 < 2 * m)
    (hhi : m < 2 ^ 53) (hk : -1074 ≤ k) (hmax : k ≤ 971) :
    binary64.round x = some ((m : ℚ) * 2 ^ k) ↔
      (m - 1 / 2) * 2 ^ k < x ∧ x < (m + 1 / 2) * 2 ^ k := by
  have hpos : (0 : ℚ) < 2 ^ k := zpow_pos (by norm_num) k
  rw [BinaryFormat.round_eq_some_iff (f := binary64) (by decide) hlo hhi hk
    (show k + 53 ≤ 1024 by omega), roundEven_eq_iff, or_iff_left fun h => hm h.1,
    lt_div_iff₀ hpos, div_lt_iff₀ hpos]

/-- What is rounded to an even number of 53 bits: more by the two numbers halfway to the next. -/
theorem round_eq_some_even_mul_iff {x : ℚ} {m k : ℤ} (hm : Even m) (hlo : 2 ^ 53 < 2 * m)
    (hhi : m < 2 ^ 53) (hk : -1074 ≤ k) (hmax : k ≤ 971) :
    binary64.round x = some ((m : ℚ) * 2 ^ k) ↔
      (m - 1 / 2) * 2 ^ k ≤ x ∧ x ≤ (m + 1 / 2) * 2 ^ k := by
  have hpos : (0 : ℚ) < 2 ^ k := zpow_pos (by norm_num) k
  rw [BinaryFormat.round_eq_some_iff (f := binary64) (by decide) hlo hhi hk
    (show k + 53 ≤ 1024 by omega), roundEven_eq_iff,
    or_iff_right_of_imp fun h => ⟨hm, h.1.le, h.2.le⟩, and_iff_right hm,
    le_div_iff₀ hpos, div_le_iff₀ hpos]

/-- The literals of a unit that are rounded to `2 ^ 64` seconds: those whose nearest number is a
certain multiple of its last bit. -/
theorem exists_round_mul_iff_of_unit {u x : ℚ} (hu : 0 < u) {e : ℤ} (he : -1022 ≤ e) {a b : ℤ}
    (hb : 0 < b) (hab : 2 ^ (e - 52) * u * b = a)
    (hlo : 2 ^ e * u ≤ 2 ^ 64 - 1024) (hhi : 2 ^ 64 + 2048 < 2 ^ (e + 1) * u) :
    (∃ n, binary64.round x = some n ∧ binary64.round (n * u) = some (2 ^ 64)) ↔
      ∃ k : ℤ, (b * (2 ^ 64 - 1024) ≤ k * a ∧ k * a ≤ b * (2 ^ 64 + 2048)) ∧
        binary64.round x = some ((k : ℚ) * 2 ^ (e - 52)) := by
  have hb' : (0 : ℚ) < b := Int.cast_pos.mpr hb
  have hrange : ∀ k : ℤ, (b * (2 ^ 64 - 1024) ≤ k * a ∧ k * a ≤ b * (2 ^ 64 + 2048)) ↔
      2 ^ 64 - 1024 ≤ (k : ℚ) * 2 ^ (e - 52) * u ∧ (k : ℚ) * 2 ^ (e - 52) * u ≤ 2 ^ 64 + 2048 := by
    intro k
    have hka : ((k * a : ℤ) : ℚ) = b * (k * 2 ^ (e - 52) * u) := by
      rw [Int.cast_mul, ← hab]
      ring
    rw [← Int.cast_le (R := ℚ), ← Int.cast_le (R := ℚ), hka]
    rw [Int.cast_mul, Int.cast_mul, mul_le_mul_iff_right₀ hb', mul_le_mul_iff_right₀ hb']
    norm_num
  simp only [Binary64.round_eq_two_pow_64_iff, hrange]
  constructor
  · rintro ⟨n, hn, hmin, hmax⟩
    have hnlo : 2 ^ e ≤ n := le_of_mul_le_mul_right (hlo.trans hmin) hu
    have hnhi : n < 2 ^ (e + 1) := lt_of_mul_lt_mul_right (hmax.trans_lt hhi) hu.le
    obtain ⟨k, rfl⟩ := eq_mul_of_round_mem hn he hnlo hnhi
    exact ⟨k, ⟨hmin, hmax⟩, hn⟩
  · rintro ⟨k, hk, hn⟩
    exact ⟨_, hn, hk⟩

theorem exists_round_mul_seconds {x : ℚ} :
    (∃ n, binary64.round x = some n ∧ binary64.round (n * 1) = some (2 ^ 64)) ↔
      x ∈ limitOf 1 := by
  show _ ↔ 2 ^ 64 - 1024 ≤ x ∧ x ≤ 2 ^ 64 + 2048
  rw [← Binary64.round_eq_two_pow_64_iff]
  constructor
  · rintro ⟨n, hn, hlimit⟩
    rw [mul_one, BinaryFormat.round_of_round_eq_some (by decide) hn] at hlimit
    rw [hn, hlimit]
  · intro h
    exact ⟨_, h, by rw [mul_one, BinaryFormat.round_of_round_eq_some (by decide) h]⟩

theorem exists_round_mul_millis {x : ℚ} :
    (∃ n, binary64.round x = some n ∧ binary64.round (n * (1 / 1000)) = some (2 ^ 64)) ↔
      x ∈ millisLimit := by
  rw [exists_round_mul_iff_of_unit (e := 73) (a := 262144) (b := 125) (by norm_num) (by norm_num)
    (by norm_num) (by norm_num) (by norm_num) (by norm_num)]
  have hk : ∀ k : ℤ, (125 * (2 ^ 64 - 1024) ≤ k * 262144 ∧ k * 262144 ≤ 125 * (2 ^ 64 + 2048)) ↔
      k = 8796093022208000 := by
    intro k
    omega
  simp only [hk, exists_eq_left]
  rw [round_eq_some_even_mul_iff (by decide) (by norm_num) (by norm_num) (by norm_num)
    (by norm_num)]
  show _ ↔ 2 ^ 64 * 1000 - 1048576 ≤ x ∧ x ≤ 2 ^ 64 * 1000 + 1048576
  norm_num

theorem exists_round_mul_minutes {x : ℚ} :
    (∃ n, binary64.round x = some n ∧ binary64.round (n * 60) = some (2 ^ 64)) ↔
      x ∈ limitOf 60 := by
  rw [exists_round_mul_iff_of_unit (e := 58) (a := 3840) (b := 1) (by norm_num) (by norm_num)
    (by norm_num) (by norm_num) (by norm_num) (by norm_num)]
  have hk : ∀ k : ℤ, (1 * (2 ^ 64 - 1024) ≤ k * 3840 ∧ k * 3840 ≤ 1 * (2 ^ 64 + 2048)) ↔
      k = 4803839602528529 := by
    intro k
    omega
  simp only [hk, exists_eq_left]
  rw [round_eq_some_odd_mul_iff (by decide) (by norm_num) (by norm_num) (by norm_num)
    (by norm_num)]
  show _ ↔ 307445734561825856 - 32 < x ∧ x < 307445734561825856 + 32
  norm_num

theorem exists_round_mul_hours {x : ℚ} :
    (∃ n, binary64.round x = some n ∧ binary64.round (n * 3600) = some (2 ^ 64)) ↔
      x ∈ limitOf 3600 := by
  rw [exists_round_mul_iff_of_unit (e := 52) (a := 3600) (b := 1) (by norm_num) (by norm_num)
    (by norm_num) (by norm_num) (by norm_num) (by norm_num)]
  have hk : ∀ k : ℤ, (1 * (2 ^ 64 - 1024) ≤ k * 3600 ∧ k * 3600 ≤ 1 * (2 ^ 64 + 2048)) ↔
      k = 5124095576030431 := by
    intro k
    omega
  simp only [hk, exists_eq_left]
  rw [round_eq_some_odd_mul_iff (by decide) (by norm_num) (by norm_num) (by norm_num)
    (by norm_num)]
  show _ ↔ 5124095576030431 - 1 / 2 < x ∧ x < 5124095576030431 + 1 / 2
  norm_num

theorem exists_round_mul_days {x : ℚ} :
    (∃ n, binary64.round x = some n ∧ binary64.round (n * 86400) = some (2 ^ 64)) ↔
      x ∈ limitOf 86400 := by
  rw [exists_round_mul_iff_of_unit (e := 47) (a := 2700) (b := 1) (by norm_num) (by norm_num)
    (by norm_num) (by norm_num) (by norm_num) (by norm_num)]
  have hk : ∀ k : ℤ, (1 * (2 ^ 64 - 1024) ≤ k * 2700 ∧ k * 2700 ≤ 1 * (2 ^ 64 + 2048)) ↔
      k = 6832127434707241 ∨ k = 6832127434707242 := by
    intro k
    omega
  simp only [hk, or_and_right, exists_or, exists_eq_left]
  rw [round_eq_some_odd_mul_iff (by decide) (by norm_num) (by norm_num) (by norm_num) (by norm_num),
    round_eq_some_even_mul_iff (by decide) (by norm_num) (by norm_num) (by norm_num) (by norm_num)]
  show _ ↔ 6832127434707241 / 32 - 1 / 64 < x ∧ x ≤ 6832127434707242 / 32 + 1 / 64
  norm_num
  constructor
  · rintro (⟨hmin, hmax⟩ | ⟨hmin, hmax⟩)
    · exact ⟨hmin, by linarith⟩
    · exact ⟨by linarith, hmax⟩
  · rintro ⟨hmin, hmax⟩
    rcases lt_or_ge x (13664254869414483 / 64) with hlt | hge
    · exact Or.inl ⟨hmin, hlt⟩
    · exact Or.inr ⟨hge, hmax⟩

/-- **The numbers of a unit that are rounded to `2 ^ 64` seconds.** -/
theorem exists_round_mul_iff {factor : ℕ} (h : factor ∈ [1, 60, 3600, 86400]) {x : ℚ} :
    (∃ n, binary64.round x = some n ∧ binary64.round (n * factor) = some (2 ^ 64)) ↔
      x ∈ limitOf factor := by
  simp only [List.mem_cons, List.not_mem_nil, or_false] at h
  obtain rfl | rfl | rfl | rfl := h
  · exact_mod_cast exists_round_mul_seconds
  · exact_mod_cast exists_round_mul_minutes
  · exact_mod_cast exists_round_mul_hours
  · exact_mod_cast exists_round_mul_days

/-! ### What is handed on -/

section Handed

open Binary64

open Combinator Combinators

variable {F64 : Type} [FloatOps F64] [Binary64 F64]

/-- A number of seconds that `Duration::from_secs_f64` takes. -/
def InRange (secs : F64) : Prop := ∃ x, value secs = some x ∧ 0 ≤ x ∧ x < 2 ^ 64

theorem fromSecsF64_ne_none_iff (secs : F64) : FloatOps.fromSecsF64 secs ≠ none ↔ InRange secs := by
  rw [fromSecsF64_eq, InRange]
  cases value secs with
  | none => simp
  | some x =>
    simp only [Option.bind_some, Option.some.injEq, exists_eq_left']
    split_ifs with h <;> simp [h]

/-- What the parsers let through, for a limit that is rounded to `2 ^ 64`. -/
theorem guard_eq_false_iff {limit secs : F64} (hlimit : value limit = some (2 ^ 64)) :
    (!FloatOps.isFinite secs || FloatOps.lt secs Float64.zero || FloatOps.lt limit secs) = false ↔
      ∃ x, value secs = some x ∧ 0 ≤ x ∧ x ≤ 2 ^ 64 := by
  rw [isFinite_eq]
  cases hvalue : value secs with
  | none => simp
  | some x =>
    rw [lt_eq hvalue value_zero, lt_eq hlimit hvalue]
    simp

/-- **What is let through and not taken**: what is rounded to `2 ^ 64` seconds. -/
theorem not_inRange_iff {limit secs : F64} (hlimit : value limit = some (2 ^ 64)) :
    ((!FloatOps.isFinite secs || FloatOps.lt secs Float64.zero || FloatOps.lt limit secs) = false ∧
      ¬ InRange secs) ↔ value secs = some (2 ^ 64) := by
  rw [guard_eq_false_iff hlimit, InRange]
  constructor
  · rintro ⟨⟨x, hx, hmin, hmax⟩, hout⟩
    have hge : 2 ^ 64 ≤ x := not_lt.mp fun hlt => hout ⟨x, hx, hmin, hlt⟩
    rw [hx, le_antisymm hmax hge]
  · intro h
    refine ⟨⟨_, h, by norm_num, le_rfl⟩, ?_⟩
    rintro ⟨x, hx, -, hlt⟩
    obtain rfl := Option.some.inj (hx.symm.trans h)
    exact absurd hlt (lt_irrefl _)

/-- The literals that become `2 ^ 64` seconds by a unit. -/
theorem exists_parse_iff {f : F64 → F64} {u : ℚ} {limit : Set ℚ}
    (hsome : ∀ {a x}, value a = some x → value (f a) = binary64.round (x * u))
    (hnone : ∀ {a}, value a = none → value (f a) = none)
    (hlimit : ∀ {x}, (∃ n, binary64.round x = some n ∧ binary64.round (n * u) = some (2 ^ 64)) ↔
      x ∈ limit) (number : List Char) :
    (∃ a, FloatOps.parse (String.ofList number) = some a ∧ value (f a) = some (2 ^ 64)) ↔
      ∃ x, decimal number = some x ∧ x ∈ limit := by
  cases hdecimal : decimal number with
  | none =>
    constructor
    · rintro ⟨a, ha, hvalue⟩
      rw [hnone (parse_other (by rwa [String.toList_ofList]) ha)] at hvalue
      exact absurd hvalue (by simp)
    · rintro ⟨x, hx, -⟩
      exact absurd hx (by simp)
  | some x =>
    obtain ⟨a, ha, hvalue⟩ : ∃ a : F64, FloatOps.parse (String.ofList number) = some a ∧
        value a = binary64.round x := parse_decimal (by rwa [String.toList_ofList])
    simp only [ha, Option.some.injEq, exists_eq_left', ← hlimit]
    cases hround : binary64.round x with
    | none => simp [hnone (hvalue.trans hround)]
    | some n => simp [hsome (hvalue.trans hround)]

/-! ### The parsers -/

/-- The guard of a parser, with the greatest number of seconds it lets through. -/
def passes (limit secs : F64) : Bool :=
  !(!FloatOps.isFinite secs || FloatOps.lt secs Float64.zero || FloatOps.lt limit secs)

omit [Binary64 F64] in
theorem guard_eq (limit secs : F64) :
    (!FloatOps.isFinite secs || FloatOps.lt secs Float64.zero || FloatOps.lt limit secs) =
      !passes limit secs := by
  rw [passes, Bool.not_not]

variable (F64) in
/-- The number that `parse_duration` hands to `Duration::from_secs_f64`. -/
def handedSeconds (s : String) : Option F64 :=
  let s := Text.trim s.toList
  if s.isEmpty ∨ ['m', 's'] <:+ s then none
  else ((FloatOps.parse (String.ofList (Text.trim (durationParts s).1)) : Option F64).map fun n =>
    FloatOps.mul n (Float64.ofU64 (durationParts s).2)).filter (passes (Float64.ofU64 (2 ^ 64 - 1)))

/-- A text whose number, by its unit, is rounded to `2 ^ 64` seconds; milliseconds apart, which
`parse_duration` reads as a whole number. -/
def AtLimit (s : String) : Prop :=
  let s := Text.trim s.toList
  ¬ ['m', 's'] <:+ s ∧
    ∃ x, decimal (Text.trim (durationParts s).1) = some x ∧ x ∈ limitOf (durationParts s).2

theorem dropSuffix?_eq_none_iff {s suffix : List Char} :
    s.dropSuffix? suffix = none ↔ ¬ suffix <:+ s := by
  rw [← not_iff_not, not_not, ← ne_eq, Option.ne_none_iff_exists']
  simp only [List.dropSuffix?_eq_some_iff, beq_iff_eq, exists_eq_right]
  constructor
  · rintro ⟨p, rfl⟩
    exact List.suffix_append p suffix
  · rintro ⟨p, rfl⟩
    exact ⟨p, rfl⟩

theorem durationParts_mem (s : List Char) : (durationParts s).2 ∈ [1, 60, 3600, 86400] := by
  rw [durationParts]
  split <;> simp

/-- `parse_duration` panics on what `Duration::from_secs_f64` does not take. -/
theorem parseDuration_ne_none_iff (s : String) :
    parseDuration F64 s ≠ none ↔ ∀ secs ∈ handedSeconds F64 s, InRange secs := by
  rw [parseDuration, handedSeconds]
  by_cases hempty : (Text.trim s.toList).isEmpty
  · rw [if_pos hempty, if_pos (Or.inl hempty)]
    simp
  rw [if_neg hempty]
  cases hmillis : (Text.trim s.toList).dropSuffix? ['m', 's'] with
  | some number =>
    have hsuffix : ['m', 's'] <:+ Text.trim s.toList := by
      by_contra hnot
      rw [dropSuffix?_eq_none_iff.mpr hnot] at hmillis
      exact absurd hmillis (by simp)
    rw [if_pos (Or.inr hsuffix)]
    simp
  | none =>
    rw [if_neg (not_or.mpr ⟨hempty, dropSuffix?_eq_none_iff.mp hmillis⟩)]
    dsimp only
    cases (FloatOps.parse (String.ofList (Text.trim (durationParts (Text.trim s.toList)).1)) :
      Option F64) with
    | none => simp
    | some n =>
      rw [Option.map_some]
      dsimp only
      generalize FloatOps.mul n (Float64.ofU64 (durationParts (Text.trim s.toList)).2) = total
      rw [guard_eq, Option.filter_some]
      cases passes (Float64.ofU64 (2 ^ 64 - 1)) total with
      | true => simp [← fromSecsF64_ne_none_iff]
      | false => simp

/-- What `parse_duration` hands on is too large exactly for the texts at the limit. -/
theorem exists_handedSeconds_iff (s : String) :
    (∃ secs ∈ handedSeconds F64 s, ¬ InRange secs) ↔ AtLimit s := by
  rw [handedSeconds, AtLimit]
  by_cases hskip : (Text.trim s.toList).isEmpty ∨ ['m', 's'] <:+ Text.trim s.toList
  · rw [if_pos hskip]
    refine iff_of_false (by simp) ?_
    rintro ⟨hsuffix, x, hx, -⟩
    have hnone : decimal (Text.trim (durationParts []).1) = none := rfl
    rw [List.isEmpty_iff.mp (hskip.resolve_right hsuffix), hnone] at hx
    exact absurd hx (by simp)
  · rw [if_neg hskip]
    set parts := durationParts (Text.trim s.toList) with hparts
    have hfactor : parts.2 ∈ [1, 60, 3600, 86400] := durationParts_mem _
    have hsmall : parts.2 ≤ 2 ^ 53 := by
      simp only [List.mem_cons, List.not_mem_nil, or_false] at hfactor
      omega
    simp only [Option.mem_def, Option.filter_eq_some_iff, Option.map_eq_some_iff]
    have hliteral := exists_parse_iff (f := fun n : F64 => FloatOps.mul n (Float64.ofU64 parts.2))
      (fun ha => value_mul ha (value_ofU64_small hsmall)) (value_mul_none _)
      (exists_round_mul_iff hfactor) (Text.trim parts.1)
    rw [and_iff_right fun h => hskip (Or.inr h), ← hliteral]
    constructor
    · rintro ⟨_, ⟨⟨n, hn, rfl⟩, hpass⟩, hout⟩
      refine ⟨n, hn, (not_inRange_iff value_maxU64).mp ⟨?_, hout⟩⟩
      simpa [passes] using hpass
    · rintro ⟨n, hn, hvalue⟩
      obtain ⟨hpass, hout⟩ := (not_inRange_iff value_maxU64).mpr hvalue
      exact ⟨_, ⟨⟨n, hn, rfl⟩, by simp only [passes, hpass]; rfl⟩, hout⟩

/-! ### The literals of TraceQL -/

/-- A character of the number of a literal. -/
def isNumberChar (c : Char) : Bool := c.isDigit || c == '.'

/-- The unit that a number goes on with. -/
def literalUnit (rest : List Char) : Option (List Char) :=
  [['m', 's'], ['s'], ['m'], ['h']].find? (·.isPrefixOf rest)

/-- The numbers of a unit that are rounded to `2 ^ 64` seconds. -/
def literalLimit : List Char → Set ℚ
  | ['m', 's'] => millisLimit
  | ['s'] => limitOf 1
  | ['m'] => limitOf 60
  | ['h'] => limitOf 3600
  | _ => ∅

variable (F64) in
/-- The number that `parse_duration_value` hands to `Duration::from_secs_f64`. -/
def handedLiteral (input : List Char) : Option F64 :=
  if input.takeWhile isNumberChar = [] then none
  else do
    let unit ← literalUnit (input.dropWhile isNumberChar)
    let num ← (FloatOps.parse (String.ofList (input.takeWhile isNumberChar)) : Option F64)
    (TraceQL.unitSeconds F64 num unit).filter (passes (TraceQL.maxSeconds F64))

/-- A literal whose number, by its unit, is rounded to `2 ^ 64` seconds. -/
def LiteralAtLimit (input : List Char) : Prop :=
  ∃ unit, literalUnit (input.dropWhile isNumberChar) = some unit ∧
    ∃ x, decimal (input.takeWhile isNumberChar) = some x ∧ x ∈ literalLimit unit

/-- The longest duration is rounded to `2 ^ 64` seconds. -/
theorem value_maxSeconds : value (TraceQL.maxSeconds F64) = some (2 ^ 64) := by
  have hfraction : ∃ r, binary64.round ((999999999 : ℕ) / (1000000000 : ℤ)) = some r ∧
      0 ≤ r ∧ r ≤ 1 := by
    have hlo := BinaryFormat.two_zpow_le_nearest (f := binary64)
      (q := (999999999 : ℕ) / (1000000000 : ℤ)) (e := -1) (by decide) (by decide) (by norm_num)
    have hhi := BinaryFormat.nearest_le_two_zpow (f := binary64)
      (q := (999999999 : ℕ) / (1000000000 : ℤ)) (e := 0) (by decide) (by decide) (by norm_num)
    have hnonneg := (zpow_pos (by norm_num : (0 : ℚ) < 2) (-1)).le.trans hlo
    refine ⟨_, BinaryFormat.round_eq_some_iff_nearest.mpr ⟨rfl, ?_⟩, hnonneg, by simpa using hhi⟩
    rw [abs_of_nonneg hnonneg]
    exact hhi.trans_lt (zpow_lt_zpow_right₀ (by norm_num) (by decide))
  obtain ⟨r, hr, hmin, hmax⟩ := hfraction
  rw [TraceQL.maxSeconds, value_add value_maxU64 ((value_div
    (value_ofU64_small (by norm_num)) (value_ofI64_small (by decide)) (by norm_num)).trans hr),
    round_eq_two_pow_64_iff]
  constructor <;> linarith

omit [Binary64 F64] in
theorem unitSeconds_isSome {rest unit : List Char} (h : literalUnit rest = some unit) (num : F64) :
    ∃ secs, TraceQL.unitSeconds F64 num unit = some secs := by
  have hunit := List.mem_of_find?_eq_some h
  simp only [List.mem_cons, List.not_mem_nil, or_false] at hunit
  obtain rfl | rfl | rfl | rfl := hunit <;> exact ⟨_, rfl⟩

/-- `parse_duration_value` panics on what `Duration::from_secs_f64` does not take. -/
theorem parseDurationValue_ne_stuck_iff [Combinators Char] (input : List Char) :
    TraceQL.parseDurationValue F64 input ≠ .error .stuck ↔
      ∀ secs ∈ handedLiteral F64 input, InRange secs := by
  have hdef : TraceQL.parseDurationValue F64 input =
      (takeWhile1 isNumberChar input).bind fun r =>
        (alt ([['m', 's'], ['s'], ['m'], ['h']].map tag) r.1).bind _ := rfl
  rw [hdef, handedLiteral]
  by_cases hnumber : input.takeWhile isNumberChar = []
  · rw [takeWhile1_of_nil hnumber, if_pos hnumber]
    simp [Except.bind]
  rw [takeWhile1_eq hnumber, if_neg hnumber]
  obtain ⟨hfound, hmissing⟩ := alt_tags (show [['m', 's'], ['s'], ['m'], ['h']] ≠ [] by simp)
    (input.dropWhile isNumberChar)
  cases hunit : literalUnit (input.dropWhile isNumberChar) with
  | none =>
    obtain ⟨e, he⟩ := hmissing hunit
    show Except.bind (alt _ _) _ ≠ _ ↔ _
    rw [he]
    simp [Except.bind]
  | some unit =>
    show Except.bind (alt _ _) _ ≠ _ ↔ _
    rw [hfound unit hunit]
    dsimp only [Except.bind]
    cases hparse : (FloatOps.parse (String.ofList (input.takeWhile isNumberChar)) : Option F64) with
    | none => simp [throw, throwThe, MonadExceptOf.throw]
    | some num =>
      obtain ⟨secs, hsecs⟩ := unitSeconds_isSome hunit num
      dsimp only
      rw [hsecs]
      dsimp only
      show _ ↔ ∀ secs ∈ (TraceQL.unitSeconds F64 num unit).filter _, InRange secs
      rw [hsecs, Option.filter_some]
      rw [guard_eq]
      cases passes (TraceQL.maxSeconds F64) secs with
      | true =>
        simp only [Bool.not_true, Bool.false_eq_true, if_false, if_true, Option.mem_def,
          Option.some.injEq, forall_eq', ← fromSecsF64_ne_none_iff]
        cases FloatOps.fromSecsF64 secs <;>
          simp [throw, throwThe, MonadExceptOf.throw, pure, Except.pure]
      | false => simp [throw, throwThe, MonadExceptOf.throw]

/-- The literals that become `2 ^ 64` seconds. -/
theorem exists_unitSeconds_iff {rest unit : List Char} (h : literalUnit rest = some unit)
    (number : List Char) :
    (∃ num secs, FloatOps.parse (String.ofList number) = some num ∧
        TraceQL.unitSeconds F64 num unit = some secs ∧ value secs = some (2 ^ 64)) ↔
      ∃ x, decimal number = some x ∧ x ∈ literalLimit unit := by
  have hunit := List.mem_of_find?_eq_some h
  simp only [List.mem_cons, List.not_mem_nil, or_false] at hunit
  obtain rfl | rfl | rfl | rfl := hunit
  · have hthousand : value (Float64.ofI64 1000 : F64) = some 1000 := value_ofI64_small (by decide)
    have hliteral := exists_parse_iff (f := fun num : F64 => FloatOps.div num (Float64.ofI64 1000))
      (fun {a x} ha => by rw [value_div ha hthousand (by norm_num), div_eq_mul_one_div])
      (fun ha => value_div_none ha hthousand) exists_round_mul_millis number
    show _ ↔ ∃ x, _ ∧ x ∈ millisLimit
    simpa [TraceQL.unitSeconds] using hliteral
  · have hliteral := exists_parse_iff (f := fun num : F64 => num)
      (fun {a x} ha => by rw [mul_one, ha, round_value ha]) id exists_round_mul_seconds number
    show _ ↔ ∃ x, _ ∧ x ∈ limitOf 1
    simpa [TraceQL.unitSeconds] using hliteral
  · have hliteral := exists_parse_iff (f := fun num : F64 => FloatOps.mul num (Float64.ofI64 60))
      (fun ha => value_mul ha (value_ofI64_small (by decide))) (value_mul_none _)
      (by exact_mod_cast exists_round_mul_minutes) number
    show _ ↔ ∃ x, _ ∧ x ∈ limitOf 60
    simpa [TraceQL.unitSeconds] using hliteral
  · have hliteral := exists_parse_iff (f := fun num : F64 => FloatOps.mul num (Float64.ofI64 3600))
      (fun ha => value_mul ha (value_ofI64_small (by decide))) (value_mul_none _)
      (by exact_mod_cast exists_round_mul_hours) number
    show _ ↔ ∃ x, _ ∧ x ∈ limitOf 3600
    simpa [TraceQL.unitSeconds] using hliteral

/-- What `parse_duration_value` hands on is too large exactly for the literals at the limit. -/
theorem exists_handedLiteral_iff (input : List Char) :
    (∃ secs ∈ handedLiteral F64 input, ¬ InRange secs) ↔ LiteralAtLimit input := by
  rw [handedLiteral, LiteralAtLimit]
  by_cases hnumber : input.takeWhile isNumberChar = []
  · have hnone : decimal [] = none := rfl
    rw [if_pos hnumber, hnumber, hnone]
    simp
  rw [if_neg hnumber]
  cases hunit : literalUnit (input.dropWhile isNumberChar) with
  | none => simp
  | some unit =>
    simp only [Option.some.injEq, exists_eq_left', ← @exists_unitSeconds_iff F64 _ _ _ _ hunit]
    simp only [Option.bind_eq_bind, Option.bind_some, Option.mem_def, Option.bind_eq_some_iff,
      Option.filter_eq_some_iff]
    constructor
    · rintro ⟨secs, ⟨num, hnum, hsecs, hpass⟩, hout⟩
      refine ⟨num, secs, hnum, hsecs, (not_inRange_iff value_maxSeconds).mp ⟨?_, hout⟩⟩
      simpa [passes] using hpass
    · rintro ⟨num, secs, hnum, hsecs, hvalue⟩
      obtain ⟨hpass, hout⟩ := (not_inRange_iff value_maxSeconds).mpr hvalue
      exact ⟨secs, ⟨num, hnum, hsecs, by rw [passes, hpass]; rfl⟩, hout⟩

/-! ### The ranges of LogQL -/

/-- A range in brackets whose text is at the limit. -/
def RangeAtLimit [Alphanumeric] (input : List Char) : Prop :=
  ∃ text rest, input = '[' :: (text ++ ']' :: rest) ∧
    (∀ c ∈ text, Alphanumeric.isAlphanumeric c = true) ∧ AtLimit (String.ofList text)

theorem not_atLimit_nil : ¬ AtLimit (String.ofList []) := by
  rintro ⟨-, x, hx, -⟩
  have hnone : decimal (Text.trim (durationParts (Text.trim (String.ofList []).toList)).1) = none := rfl
  rw [hnone] at hx
  exact absurd hx (by simp)

/-- Where `parse_duration` panics. -/
theorem parseDuration_eq_none_iff (s : String) : parseDuration F64 s = none ↔ AtLimit s := by
  rw [← not_iff_not, ← ne_eq, parseDuration_ne_none_iff, ← @exists_handedSeconds_iff F64]
  push Not
  rfl

variable [Combinators Char]

/-- `parse_range` panics on the ranges at the limit. -/
theorem parseRange_eq_stuck_iff [Alphanumeric] (input : List Char) :
    LogQL.parseRange F64 input = .error .stuck ↔ RangeAtLimit input := by
  have hdef : LogQL.parseRange F64 input = (char '[' input).bind fun r =>
      (takeWhile1 Alphanumeric.isAlphanumeric r.1).bind fun r =>
        (char ']' r.1).bind _ := rfl
  have hbracket : Alphanumeric.isAlphanumeric ']' = false :=
    Alphanumeric.isAlphanumeric_of_ascii (by decide)
  have hne_stuck : ∀ {α : Type} {r : IResult Char α} {f : List Char × α → IResult Char ℕ},
      IsError r → Except.bind r f ≠ .error .stuck := by
    intro α r f hr
    obtain ⟨e, he⟩ := isError_bind hr f
    simp [he]
  rw [hdef]
  constructor
  · intro h
    by_cases hopen : '[' ∈ input.head?
    · obtain ⟨body, rfl⟩ : ∃ body, input = '[' :: body := ⟨_, List.eq_cons_of_mem_head? hopen⟩
      rw [char_cons] at h
      by_cases htext : body.takeWhile Alphanumeric.isAlphanumeric = []
      · change Except.bind (takeWhile1 _ body) _ = _ at h
        exact absurd h (hne_stuck ⟨_, takeWhile1_of_nil htext⟩)
      change Except.bind (takeWhile1 _ body) _ = _ at h
      rw [takeWhile1_eq htext] at h
      change Except.bind (char ']' (body.dropWhile _)) _ = _ at h
      by_cases hclose : ']' ∈ (body.dropWhile Alphanumeric.isAlphanumeric).head?
      · obtain ⟨rest, hrest⟩ : ∃ rest, body.dropWhile Alphanumeric.isAlphanumeric = ']' :: rest :=
          ⟨_, List.eq_cons_of_mem_head? hclose⟩
        refine ⟨body.takeWhile Alphanumeric.isAlphanumeric, rest, ?_,
          fun c hc => List.mem_takeWhile_imp hc, ?_⟩
        · rw [← hrest, List.takeWhile_append_dropWhile]
        · rw [← @parseDuration_eq_none_iff F64]
          rw [hrest, char_cons] at h
          dsimp only [Except.bind] at h
          cases hparse : parseDuration F64
              (String.ofList (body.takeWhile Alphanumeric.isAlphanumeric)) with
          | none => rfl
          | some duration =>
            rw [hparse] at h
            cases duration <;> simp [throw, throwThe, MonadExceptOf.throw, pure, Except.pure] at h
      · exact absurd h (hne_stuck ⟨_, char_of_notMem_head hclose⟩)
    · exact absurd h (hne_stuck ⟨_, char_of_notMem_head hopen⟩)
  · rintro ⟨text, rest, rfl, htext, hlimit⟩
    have hne : text ≠ [] := by
      rintro rfl
      exact not_atLimit_nil hlimit
    rw [char_cons]
    show Except.bind (takeWhile1 _ (text ++ ']' :: rest)) _ = _
    rw [takeWhile1_append hne htext (by simpa using hbracket)]
    show Except.bind (char ']' (']' :: rest)) _ = _
    rw [char_cons]
    dsimp only [Except.bind]
    rw [(parseDuration_eq_none_iff _).mpr hlimit]
    rfl

variable (F64) in
/-- **The texts that the duration parsers do not panic on**, and hand a number of seconds on of that
`Duration::from_secs_f64` takes: all but those at the limit. -/
theorem durations_safe_iff [Alphanumeric] :
    (∀ s, (parseDuration F64 s ≠ none ∧ ∀ secs ∈ handedSeconds F64 s, InRange secs) ↔
      ¬ AtLimit s) ∧
    (∀ input, (TraceQL.parseDurationValue F64 input ≠ .error .stuck ∧
      ∀ secs ∈ handedLiteral F64 input, InRange secs) ↔ ¬ LiteralAtLimit input) ∧
    ∀ input, LogQL.parseRange F64 input ≠ .error .stuck ↔ ¬ RangeAtLimit input := by
  refine ⟨fun s => ?_, fun input => ?_, fun input => (parseRange_eq_stuck_iff input).not⟩
  · rw [parseDuration_ne_none_iff, and_self, ← @exists_handedSeconds_iff F64]
    push Not
    rfl
  · rw [parseDurationValue_ne_stuck_iff, and_self, ← @exists_handedLiteral_iff F64]
    push Not
    rfl

end Handed

/-- `2 ^ 64` seconds, as a text. -/
def tooLong : String := "18446744073709551616"

/-- The texts that the parsers do not panic on, in binary64. -/
theorem durations_safe_iff_double :
    letI : Combinator.Combinators Char := Combinator.Combinators.ofLists
    letI : Alphanumeric := .ascii
    (∀ s, (parseDuration Double s ≠ none ∧ ∀ secs ∈ handedSeconds Double s, InRange secs) ↔
      ¬ AtLimit s) ∧
    (∀ input, (TraceQL.parseDurationValue Double input ≠ .error .stuck ∧
      ∀ secs ∈ handedLiteral Double input, InRange secs) ↔ ¬ LiteralAtLimit input) ∧
    ∀ input, LogQL.parseRange Double input ≠ .error .stuck ↔ ¬ RangeAtLimit input :=
  letI : Combinator.Combinators Char := Combinator.Combinators.ofLists
  letI : Alphanumeric := .ascii
  durations_safe_iff Double

theorem decimal_tooLong : decimal tooLong.toList = some (2 ^ 64) := by
  have hdigits : parseDigits tooLong.toList = some (2 ^ 64) := by decide
  rw [decimal_of_parseDigits hdigits]
  norm_num

/-- **`2 ^ 64` seconds pass the check and panic**, in either parser. -/
theorem not_durations_safe :
    parseDuration Double tooLong = none ∧
      @TraceQL.parseDurationValue Double Combinator.Combinators.ofLists _
        (tooLong ++ "s").toList = .error .stuck := by
  let _ : Combinator.Combinators Char := Combinator.Combinators.ofLists
  have hmem : (2 ^ 64 : ℚ) ∈ limitOf 1 := by
    show _ ∧ _
    norm_num
  constructor
  · rw [parseDuration_eq_none_iff]
    have hparts : durationParts (Text.trim tooLong.toList) = (tooLong.toList, 1) := by decide
    have htrim : Text.trim tooLong.toList = tooLong.toList := by decide
    refine ⟨by decide, 2 ^ 64, ?_, ?_⟩
    · rw [hparts, htrim, decimal_tooLong]
    · rw [hparts]
      exact hmem
  · have hlimit : LiteralAtLimit (tooLong ++ "s").toList := by
      have hunit : literalUnit ((tooLong ++ "s").toList.dropWhile isNumberChar) = some ['s'] := by
        decide
      have hnumber : (tooLong ++ "s").toList.takeWhile isNumberChar = tooLong.toList := by decide
      exact ⟨['s'], hunit, 2 ^ 64, by rw [hnumber, decimal_tooLong], hmem⟩
    rw [← @exists_handedLiteral_iff Double] at hlimit
    by_contra hsafe
    obtain ⟨secs, hsecs, hout⟩ := hlimit
    exact hout ((parseDurationValue_ne_stuck_iff _).mp hsafe secs hsecs)

end Aniani
