import Aniani.Query.Text
import Aniani.Query.TraceQL.Selector

/-!
# Timestamps and durations

A timestamp is given as a whole number of a unit that is told by its size, or as a number of
seconds. Each API has a function of its own for it. The one of LogQL and of the Loki ingest tells
four units apart, the ones of PromQL and of the trace search three: to these a number of
microseconds is one of nanoseconds.

## Main definitions

* `parseTimestampNs`, `parseTimestampMs`, `paramToNs` — the functions
* `parseDuration` — durations, in nanoseconds
* `TimeUnit.Denotes` — the instant a number of a unit stands for

## Main results

* `timestamps_agree` — what the three make of a literal
* `not_timestamps_agree` — they do not agree on microseconds
-/

namespace Aniani

/-- `i64::saturating_mul`. -/
def i64SaturatingMul (a b : ℤ) : ℤ := max i64Min (min i64Max (a * b))

/-! ### The three classifiers -/

/-- `classify_to_ns`. -/
def classifyToNs (n : ℤ) : ℤ :=
  if n > 1000000000000000000 then n
  else if n > 1000000000000000 then i64SaturatingMul n 1000
  else if n > 1000000000000 then i64SaturatingMul n 1000000
  else i64SaturatingMul n 1000000000

/-- `classify_to_ms`. -/
def classifyToMs (n : ℤ) : ℤ :=
  if n > 1000000000000000 then n.tdiv 1000000
  else if n > 1000000000000 then n
  else i64SaturatingMul n 1000

/-- `param_to_ns`, of a `u64`. -/
def paramToNs (val : ℕ) : ℤ :=
  if val < 100000000000 then i64SaturatingMul val 1000000000
  else if val < 100000000000000 then i64SaturatingMul val 1000000
  else if (val : ℤ) > i64Max then i64Max
  else val

section Floats

open FloatOps

variable {F64 : Type} [FloatOps F64]

/-- The body of `float_seconds_to_ns` and `float_seconds_to_ms`, for the units in a second. -/
def floatSeconds (unitsPerSec secs : F64) : Option ℤ :=
  if !isFinite secs || lt (div (Float64.ofI64 i64Max) unitsPerSec) secs ||
      lt secs (div (Float64.ofI64 i64Min) unitsPerSec) then
    none
  else some (toI64 (mul secs unitsPerSec))

/-- `float_seconds_to_ns`. -/
def floatSecondsToNs (secs : F64) : Option ℤ := floatSeconds (Float64.ofI64 1000000000) secs

/-- `float_seconds_to_ms`. -/
def floatSecondsToMs (secs : F64) : Option ℤ := floatSeconds (Float64.ofI64 1000) secs

theorem i64SaturatingMul_mem (a b : ℤ) : i64SaturatingMul a b ∈ Set.Icc i64Min i64Max :=
  ⟨le_max_left _ _, max_le (by decide) (min_le_left _ _)⟩

theorem classifyToNs_mem {n : ℤ} (h : n ∈ Set.Icc i64Min i64Max) :
    classifyToNs n ∈ Set.Icc i64Min i64Max := by
  rw [classifyToNs]
  split_ifs
  · exact h
  all_goals exact i64SaturatingMul_mem _ _

theorem classifyToMs_mem {n : ℤ} (h : n ∈ Set.Icc i64Min i64Max) :
    classifyToMs n ∈ Set.Icc i64Min i64Max := by
  rw [classifyToMs]
  split_ifs with hns
  · rw [Int.tdiv_eq_ediv_of_nonneg (by omega)]
    have := h.2
    constructor <;> unfold i64Min i64Max at * <;> omega
  · exact h
  · exact i64SaturatingMul_mem _ _

theorem parseI64_mem {s : String} {n : ℤ} (h : parseI64 s = some n) :
    n ∈ Set.Icc i64Min i64Max := by
  rw [parseI64] at h
  exact of_decide_eq_true (Option.mem_filter_iff.mp h).2

theorem floatSeconds_mem {unitsPerSec secs : F64} {i : ℤ}
    (h : floatSeconds unitsPerSec secs = some i) : i ∈ Set.Icc i64Min i64Max := by
  rw [floatSeconds] at h
  split at h
  · exact absurd h (by simp)
  · exact Option.some.inj h ▸ (toI64 _).2

variable (F64)

/-- `parse_timestamp_ns`. -/
def parseTimestampNs (s : String) : Option ℤ :=
  match parseI64 (strTrim s) with
  | some n => some (classifyToNs n)
  | none => (parse (strTrim s) : Option F64).bind floatSecondsToNs

/-- `parse_timestamp_ms`. -/
def parseTimestampMs (s : String) : Option ℤ :=
  match parseI64 s with
  | some n => some (classifyToMs n)
  | none => (parse s : Option F64).bind floatSecondsToMs

/-- `parse_timestamp_ns` gives an `i64`. -/
theorem parseTimestampNs_mem {s : String} {ns : ℤ} (h : parseTimestampNs F64 s = some ns) :
    ns ∈ Set.Icc i64Min i64Max := by
  rw [parseTimestampNs] at h
  split at h
  · next n hn =>
    exact Option.some.inj h ▸ classifyToNs_mem (parseI64_mem hn)
  · obtain ⟨secs, -, hsecs⟩ := Option.bind_eq_some_iff.mp h
    exact floatSeconds_mem hsecs

/-- `parse_timestamp_ms` gives an `i64`. -/
theorem parseTimestampMs_mem {s : String} {ms : ℤ} (h : parseTimestampMs F64 s = some ms) :
    ms ∈ Set.Icc i64Min i64Max := by
  rw [parseTimestampMs] at h
  split at h
  · next n hn =>
    exact Option.some.inj h ▸ classifyToMs_mem (parseI64_mem hn)
  · obtain ⟨secs, -, hsecs⟩ := Option.bind_eq_some_iff.mp h
    exact floatSeconds_mem hsecs

end Floats

/-! ### Durations -/

/-- `str::parse::<u64>`. -/
def parseU64 (s : List Char) : Option ℕ :=
  let value :=
    match s with
    | '+' :: digits => parseDigits digits
    | digits => parseDigits digits
  value.filter fun n => decide (n < 2 ^ 64)

/-- The number of a duration and what its unit is in seconds: seconds if it has none. -/
def durationParts (s : List Char) : List Char × ℕ :=
  match s.dropSuffix? ['s'], s.dropSuffix? ['m'], s.dropSuffix? ['h'], s.dropSuffix? ['d'] with
  | some n, _, _, _ => (n, 1)
  | none, some n, _, _ => (n, 60)
  | none, none, some n, _ => (n, 3600)
  | none, none, none, some n => (n, 86400)
  | none, none, none, none => (s, 1)

open FloatOps in
/-- `parse_duration` in nanoseconds: nothing where it panics, and in it nothing where it refuses. -/
def parseDuration (F64 : Type) [FloatOps F64] (s : String) : Option (Option ℕ) :=
  let s := Text.trim s.toList
  if s.isEmpty then some none
  else
    match s.dropSuffix? ['m', 's'] with
    | some num => some ((parseU64 (Text.trim num)).map (· * 1000000))
    | none =>
      match (parse (String.ofList (Text.trim (durationParts s).1)) : Option F64) with
      | none => some none
      | some n =>
        let totalSecs := mul n (Float64.ofU64 (durationParts s).2)
        if !isFinite totalSecs || lt totalSecs Float64.zero ||
            lt (Float64.ofU64 (2 ^ 64 - 1)) totalSecs then
          some none
        else (fromSecsF64 totalSecs).map some

example : parseDuration ℤ " 500 ms" = some (some 500000000) := by decide

/-! ### Literals -/

theorem not_isWhitespace_of_isDigit {c : Char} (h : c.isDigit = true) :
    Text.isWhitespace c = false := by
  have hrange : 48 ≤ c.toNat ∧ c.toNat ≤ 57 := by
    simpa [Char.isDigit, Char.le_def, UInt32.le_iff_toNat_le] using h
  simp only [Text.isWhitespace, List.mem_cons, List.not_mem_nil, or_false]
  exact decide_eq_false (by omega)

/-- Nothing is trimmed where there is no white space. -/
theorem Text.trim_eq_self {s : List Char} (h : ∀ c ∈ s, Text.isWhitespace c = false) :
    Text.trim s = s := by
  have hstart : Text.trimStart s = s := by
    cases s with
    | nil => rfl
    | cons c s => exact List.dropWhile_cons_of_neg (by simp [h c List.mem_cons_self])
  rw [Text.trim, hstart, Text.trimEnd, List.rdropWhile_eq_self_iff]
  exact fun hne => by simp [h _ (List.getLast_mem hne)]

theorem all_isDigit_of_parseDigits {digits : List Char} {n : ℕ} (h : parseDigits digits = some n) :
    ∀ c ∈ digits, c.isDigit = true := by
  rw [parseDigits] at h
  split at h
  · next hdigits => exact fun c hc => List.all_eq_true.mp hdigits.2 c hc
  · exact absurd h (by simp)

/-- A literal that fits is read as the number it is. -/
theorem parseI64_of_parseDigits {s : String} {n : ℕ} (h : parseDigits s.toList = some n)
    (hn : (n : ℤ) ≤ i64Max) : parseI64 s = some (n : ℤ) := by
  have hdigits := all_isDigit_of_parseDigits h
  have hmin : i64Min ≤ (n : ℤ) := by
    unfold i64Min
    omega
  rw [parseI64]
  split
  · next digits heq => exact absurd (hdigits '-' (by simp [heq])) (by decide)
  · next digits heq => exact absurd (hdigits '+' (by simp [heq])) (by decide)
  · simp [h, hmin, hn]

theorem strTrim_of_parseDigits {s : String} {n : ℕ} (h : parseDigits s.toList = some n) :
    strTrim s = s := by
  rw [strTrim, Text.trim_eq_self fun c hc =>
    not_isWhitespace_of_isDigit (all_isDigit_of_parseDigits h c hc), String.ofList_toList]

/-! ### What a literal stands for -/

/-- The units of a timestamp. -/
inductive TimeUnit where
  | seconds | millis | micros | nanos
  deriving DecidableEq

/-- The nanoseconds of a unit. -/
def TimeUnit.ns : TimeUnit → ℤ
  | .seconds => 1000000000
  | .millis => 1000000
  | .micros => 1000
  | .nanos => 1

/-- A number of a unit stands for an instant between 2001-09-10 and 2262. -/
structure TimeUnit.Denotes (unit : TimeUnit) (n : ℕ) (instantNs : ℤ) : Prop where
  eq : instantNs = n * unit.ns
  after : 1000080000 * 1000000000 ≤ instantNs
  before : instantNs < 9214646400 * 1000000000

theorem TimeUnit.Denotes.le_i64Max {unit : TimeUnit} {n : ℕ} {instantNs : ℤ}
    (h : unit.Denotes n instantNs) : (n : ℤ) ≤ i64Max := by
  obtain ⟨rfl, -, hbefore⟩ := h
  cases unit <;> simp only [TimeUnit.ns] at hbefore <;> unfold i64Max <;> omega

/-- A number is taken for its own unit, whichever of the four it is. -/
theorem classifyToNs_of_denotes {unit : TimeUnit} {n : ℕ} {instantNs : ℤ}
    (h : unit.Denotes n instantNs) : classifyToNs n = instantNs := by
  obtain ⟨rfl, hafter, hbefore⟩ := h
  unfold classifyToNs i64SaturatingMul i64Min i64Max
  cases unit <;> simp only [TimeUnit.ns] at hafter hbefore ⊢ <;> split_ifs <;> omega

/-- A number is taken for its own unit, if that is not the microsecond. -/
theorem classifyToMs_of_denotes {unit : TimeUnit} {n : ℕ} {instantNs : ℤ}
    (h : unit.Denotes n instantNs) (hunit : unit ≠ .micros) :
    classifyToMs n = instantNs / 1000000 := by
  obtain ⟨rfl, hafter, hbefore⟩ := h
  have hdiv : (n : ℤ).tdiv 1000000 = n / 1000000 := Int.tdiv_eq_ediv_of_nonneg (by omega)
  unfold classifyToMs i64SaturatingMul i64Min i64Max
  cases unit with
  | micros => exact absurd rfl hunit
  | _ => simp only [TimeUnit.ns] at hafter hbefore ⊢; split_ifs <;> omega

theorem paramToNs_of_denotes {unit : TimeUnit} {n : ℕ} {instantNs : ℤ}
    (h : unit.Denotes n instantNs) (hunit : unit ≠ .micros) : paramToNs n = instantNs := by
  obtain ⟨rfl, hafter, hbefore⟩ := h
  unfold paramToNs i64SaturatingMul i64Min i64Max
  cases unit with
  | micros => exact absurd rfl hunit
  | _ => simp only [TimeUnit.ns] at hafter hbefore ⊢; split_ifs <;> omega

/-- A number of microseconds is taken for one of nanoseconds. -/
theorem classify_of_micros {n : ℕ} {instantNs : ℤ} (h : TimeUnit.micros.Denotes n instantNs) :
    classifyToMs n = n / 1000000 ∧ paramToNs n = n := by
  obtain ⟨rfl, hafter, hbefore⟩ := h
  simp only [TimeUnit.ns] at hafter hbefore
  have hdiv : (n : ℤ).tdiv 1000000 = n / 1000000 := Int.tdiv_eq_ediv_of_nonneg (by omega)
  unfold classifyToMs paramToNs i64SaturatingMul i64Min i64Max
  constructor <;> split_ifs <;> omega

/-- **What the three classifiers make of a literal**: the first knows four units, the others take
microseconds for nanoseconds. -/
theorem timestamps_agree (F64 : Type) [FloatOps F64] {text : String} {unit : TimeUnit} {n : ℕ}
    {instantNs : ℤ} (htext : parseDigits text.toList = some n) (h : unit.Denotes n instantNs) :
    parseTimestampNs F64 text = some instantNs ∧
      (unit ≠ .micros →
        parseTimestampMs F64 text = some (instantNs / 1000000) ∧ paramToNs n = instantNs) ∧
      (unit = .micros →
        parseTimestampMs F64 text = some ((n : ℤ) / 1000000) ∧ paramToNs n = n) := by
  have hi64 := parseI64_of_parseDigits htext h.le_i64Max
  have hns : parseTimestampNs F64 text = some (classifyToNs n) := by
    rw [parseTimestampNs, strTrim_of_parseDigits htext, hi64]
  have hms : parseTimestampMs F64 text = some (classifyToMs n) := by
    rw [parseTimestampMs, hi64]
  rw [hns, hms, classifyToNs_of_denotes h]
  refine ⟨rfl, fun hunit => ?_, ?_⟩
  · exact ⟨by rw [classifyToMs_of_denotes h hunit], paramToNs_of_denotes h hunit⟩
  · rintro rfl
    obtain ⟨hms, hparam⟩ := classify_of_micros h
    exact ⟨by rw [hms], hparam⟩

/-- A number of seconds in 2023. -/
theorem timestamps_agree_seconds :
    parseTimestampNs ℤ "1700000000" = some 1700000000000000000 ∧
      (TimeUnit.seconds ≠ .micros →
        parseTimestampMs ℤ "1700000000" = some (1700000000000000000 / 1000000) ∧
          paramToNs 1700000000 = 1700000000000000000) ∧
      (TimeUnit.seconds = .micros →
        parseTimestampMs ℤ "1700000000" = some (((1700000000 : ℕ) : ℤ) / 1000000) ∧
          paramToNs 1700000000 = (1700000000 : ℕ)) :=
  timestamps_agree ℤ (by decide) ⟨by decide, by decide, by decide⟩

/-- **The three classifiers do not agree on microseconds.** -/
theorem not_timestamps_agree :
    ¬ ∀ (text : String) (unit : TimeUnit) (n : ℕ) (instantNs : ℤ),
      parseDigits text.toList = some n → unit.Denotes n instantNs →
        parseTimestampNs ℤ text = some instantNs ∧
          parseTimestampMs ℤ text = some (instantNs / 1000000) ∧ paramToNs n = instantNs := by
  intro h
  have hmicros := h "1700000000000000" .micros 1700000000000000 1700000000000000000 (by decide)
    ⟨by decide, by decide, by decide⟩
  exact absurd hmicros.2.2 (by decide)

end Aniani
