import Aniani.Query.Binary64
import Aniani.Query.TraceQL.Regexes

/-!
# Equal and unequal attributes

A condition on an attribute compares the stored value with the literal by the types of both. An
attribute that is absent counts as unequal. Where the types do not go together the comparison is
false whatever the operator is, `!=` included; so it is where a string that is compared with a whole
number is none, and where the difference of two floating-point numbers is `NaN`. There neither `=` nor
`!=` holds of an attribute that the span carries.

## Main definitions

* `EpsilonLaws` — what is known of the comparison of two floating-point numbers
* `Differ` — two floating-point numbers have a difference
* `TraceStore.GoTogether` — a stored value can be compared with a literal

## Main results

* `compareF64_neq_iff` — two floating-point numbers
* `complementary_iff` — when `!=` holds exactly if `=` does not
-/

namespace Aniani

open TraceQL Combinator Combinators

/-! ### Floating-point numbers -/

/-- What is known of the difference of two numbers and of comparing it. -/
class EpsilonLaws (F64 : Type) [FloatOps F64] : Prop where
  /-- A difference is `NaN` when one of the numbers is, or when both are the same infinity. -/
  isNan_abs_sub : ∀ a b : F64, FloatOps.isNan (FloatOps.abs (FloatOps.sub a b)) =
    (FloatOps.isNan a || FloatOps.isNan b || (FloatOps.isInfinite a && FloatOps.eq a b))
  /-- Of two numbers, neither of them `NaN`, one is less than the other or not. -/
  le_eq : ∀ a b : F64, FloatOps.isNan a = false → FloatOps.isNan b = false →
    FloatOps.le a b = !FloatOps.lt b a
  /-- No comparison with `NaN` holds. -/
  lt_of_isNan : ∀ a b : F64, FloatOps.isNan a = true → FloatOps.lt a b = false
  le_of_isNan : ∀ a b : F64, FloatOps.isNan b = true → FloatOps.le a b = false
  isNan_epsilon : FloatOps.isNan (FloatOps.epsilon : F64) = false

variable {Rodeo Spur F64 : Type} [Interner Rodeo Spur] [FloatOps F64]

/-- Two numbers have a difference: neither is `NaN`, and they are not the same infinity. -/
def Differ (a b : F64) : Prop :=
  FloatOps.isNan a = false ∧ FloatOps.isNan b = false ∧
    ¬ (FloatOps.isInfinite a = true ∧ FloatOps.eq a b = true)

variable [EpsilonLaws F64]

theorem differ_iff (a b : F64) :
    Differ a b ↔ FloatOps.isNan (FloatOps.abs (FloatOps.sub a b)) = false := by
  rw [EpsilonLaws.isNan_abs_sub, Differ]
  simp [and_assoc]

/-- **Two numbers** are equal or unequal exactly when they have a difference. -/
theorem compareF64_neq_iff (a b : F64) :
    compareF64 a .neq b = !compareF64 a .eq b ↔ Differ a b := by
  rw [differ_iff, compareF64, compareF64]
  cases hnan : FloatOps.isNan (FloatOps.abs (FloatOps.sub a b)) with
  | false =>
    rw [EpsilonLaws.le_eq _ _ EpsilonLaws.isNan_epsilon hnan]
    exact iff_of_true rfl rfl
  | true =>
    rw [EpsilonLaws.le_of_isNan _ _ hnan, EpsilonLaws.lt_of_isNan _ _ hnan]
    simp

/-! ### To evaluate with -/

namespace Double

theorem isNan_eq_true_iff {a : Double} : FloatOps.isNan a = true ↔ a = nan := by
  cases a with
  | nan => exact iff_of_true rfl rfl
  | _ => exact iff_of_false (by simp [FloatOps.isNan]) (by simp)

theorem ofRat_ne_nan (q : ℚ) : ofRat q ≠ nan := by
  delta ofRat
  split <;> simp

/-- The negative of a finite number is finite. -/
theorem exists_neg_finite {q : ℚ} (hq : binary64.round q = some q) :
    ∃ h, neg (finite q hq) = finite (-q) h := by
  have hround : binary64.round (-q) = some (-q) := by
    rw [BinaryFormat.round_eq_some_iff_nearest, BinaryFormat.nearest_neg, abs_neg]
    obtain ⟨hnearest, hlt⟩ := BinaryFormat.round_eq_some_iff_nearest.mp hq
    exact ⟨congrArg Neg.neg hnearest, hlt⟩
  exact exists_of_value_eq_some ((value_ofRat (-q)).trans hround)

instance : EpsilonLaws Double where
  isNan_abs_sub a b := by
    have habs : ∀ c : Double, FloatOps.isNan (FloatOps.abs c) = FloatOps.isNan c := by
      intro c
      show FloatOps.isNan (if c.isNegative then c.neg else c) = _
      split
      · cases c with
        | finite q hq =>
          obtain ⟨h, heq⟩ := exists_neg_finite hq
          rw [heq]
          rfl
        | _ => rfl
      · rfl
    rw [habs]
    show FloatOps.isNan (a.add b.neg) = _
    cases a with
    | nan => cases b <;> rfl
    | finite q hq =>
      cases b with
      | nan => rfl
      | infinite t => rfl
      | finite r hr =>
        obtain ⟨h, heq⟩ := exists_neg_finite hr
        rw [heq]
        exact Bool.eq_false_iff.mpr (mt isNan_eq_true_iff.mp (ofRat_ne_nan _))
    | infinite s =>
      cases b with
      | nan => rfl
      | infinite t => cases s <;> cases t <;> rfl
      | finite r hr =>
        obtain ⟨h, heq⟩ := exists_neg_finite hr
        rw [heq]
        cases s <;> rfl
  le_eq a b ha hb := by
    show (a.lt b || a.beq b) = !b.lt a
    cases a with
    | nan => exact absurd ha (by simp [FloatOps.isNan])
    | finite q hq =>
      cases b with
      | nan => exact absurd hb (by simp [FloatOps.isNan])
      | infinite t => cases t <;> rfl
      | finite r hr =>
        simp only [beq, lt]
        rcases lt_trichotomy q r with h | h | h <;> simp [h, h.le]
    | infinite s =>
      cases b with
      | nan => exact absurd hb (by simp [FloatOps.isNan])
      | infinite t => cases s <;> cases t <;> rfl
      | finite r hr => cases s <;> rfl
  lt_of_isNan a b ha := by
    obtain rfl := isNan_eq_true_iff.mp ha
    cases b <;> rfl
  le_of_isNan a b hb := by
    obtain rfl := isNan_eq_true_iff.mp hb
    cases a <;> rfl
  isNan_epsilon := Bool.eq_false_iff.mpr (mt isNan_eq_true_iff.mp (ofRat_ne_nan _))

end Double

/-! ### Attributes -/

namespace TraceStore

omit [EpsilonLaws F64] in
/-- A stored value can be compared with a literal: both are strings, whole numbers or truth values, the
string is a whole number, or both are numbers that have a difference. -/
def GoTogether (s : TraceStore Rodeo Spur F64) : AttributeValue Spur F64 → SpanValue F64 → Prop
  | .string _, .string _ => True
  | .int _, .int _ => True
  | .int i, .float t => Differ (Float64.ofI64 i) t
  | .float f, .float t => Differ f t
  | .float f, .int t => Differ f (Float64.ofI64 t)
  | .string v, .int _ => (parseI64 (s.resolve v)).isSome = true
  | .bool _, .bool _ => True
  | _, _ => False

omit [Interner Rodeo Spur] [FloatOps F64] [EpsilonLaws F64] in
/-- Values of an ordered type are equal or unequal. -/
theorem compareOrdered_neq {α : Type} [LinearOrder α] (a b : α) :
    compareOrdered a .neq b = !compareOrdered a .eq b := by
  simp [compareOrdered]

/-- **The whole matrix of types**: `!=` is the opposite of `=` exactly for values that go together. -/
theorem compareAttributeValue_neq_iff (s : TraceStore Rodeo Spur F64)
    (attr : AttributeValue Spur F64) (value : SpanValue F64) (re re' : Option (String → Bool)) :
    s.compareAttributeValue attr .neq value re = !s.compareAttributeValue attr .eq value re' ↔
      s.GoTogether attr value := by
  cases attr with
  | string v =>
    cases value with
    | string t => exact iff_of_true (compareOrdered_neq _ t) trivial
    | int t =>
      rw [compareAttributeValue, compareAttributeValue, GoTogether]
      cases parseI64 (s.resolve v) with
      | none => simp
      | some i => exact iff_of_true (compareOrdered_neq i t) rfl
    | _ => simp [compareAttributeValue, GoTogether]
  | int i =>
    cases value with
    | int t => exact iff_of_true (compareOrdered_neq i t) trivial
    | float t => exact compareF64_neq_iff _ t
    | _ => simp [compareAttributeValue, GoTogether]
  | float f =>
    cases value with
    | int t => exact compareF64_neq_iff f _
    | float t => exact compareF64_neq_iff f t
    | _ => simp [compareAttributeValue, GoTogether]
  | bool b =>
    cases value with
    | bool t => exact iff_of_true rfl trivial
    | _ => simp [compareAttributeValue, GoTogether]
  | _ => cases value <;> simp [compareAttributeValue, GoTogether]

end TraceStore

/-- **When `!=` holds exactly if `=` does not**, of an attribute that the span carries. -/
theorem complementary_iff (regexNew : String → Option (String → Bool))
    (s : TraceStore Rodeo Spur F64) (span : Span Spur F64) (scope : AttrScope) (name : String)
    (value : SpanValue F64) {attr : Spur × AttributeValue Spur F64}
    (hattr : s.findAttribute span scope name = some attr) :
    let holds := fun op : CompareOp =>
      let condition : SpanCondition F64 := .attribute scope name op value
      s.spanMatchesCondition span condition (precompileRegex regexNew condition)
    (holds .neq = true ↔ ¬ holds .eq = true) ↔ s.GoTogether attr.2 value := by
  intro holds
  have hholds : ∀ op, holds op = s.compareAttributeValue attr.2 op value
      (precompileRegex regexNew (.attribute scope name op value)) := by
    intro op
    simp only [holds, TraceStore.spanMatchesCondition, hattr]
  rw [← s.compareAttributeValue_neq_iff attr.2 value _ _, ← hholds .neq, ← hholds .eq]
  cases holds .neq <;> cases holds .eq <;> simp

/-! ### Spans to ask for -/

/-- `NaN` is neither equal to one nor unequal. -/
theorem complementary_iff_nan :
    let s : TraceStore VecRodeo ℕ Double :=
      { (TraceStore.new : TraceStore VecRodeo ℕ Double) with interner := ⟨["span.load"]⟩ }
    let span : Span ℕ Double := { eventSpan 0 0 with attributes := [(0, .float .nan)] }
    let holds := fun op : CompareOp =>
      let condition : SpanCondition Double := .attribute .span "load" op (.int 1)
      s.spanMatchesCondition span condition (precompileRegex (fun _ => none) condition)
    ¬ (holds .neq = true ↔ ¬ holds .eq = true) := by
  intro s span holds
  have hattr : s.findAttribute span .span "load" = some (0, .float .nan) := rfl
  have hiff := complementary_iff (fun _ => none) s span .span "load" (.int 1) hattr
  intro hcomplementary
  obtain ⟨hnan, -⟩ : Differ Double.nan (Float64.ofI64 1) := hiff.mp hcomplementary
  exact absurd hnan (by simp [FloatOps.isNan])

/-- A store with a span that has a whole number as an attribute. -/
def codeStore : TraceStore VecRodeo ℕ ℤ :=
  receivedStore [{ sentSpan (List.replicate 8 1) [] with
    attributes := [⟨"code", some (.intValue 5)⟩] }]

/-- **A whole number and a string** are neither equal nor unequal: of two queries that the parser
accepts neither matches the span. -/
theorem not_complementary_code :
    let _ : Combinators Char := ofLists
    let _ : Alphanumeric := .ascii
    let condition : CompareOp → SpanCondition ℤ := fun op => .attribute .span "code" op (.string "5")
    parseTraceql (fun _ => "") "\x7bcode=\"5\"\x7d" =
        some (.ok (.spanSelector ⟨[condition .eq], [], rfl⟩)) ∧
      parseTraceql (fun _ => "") "\x7bcode!=\"5\"\x7d" =
        some (.ok (.spanSelector ⟨[condition .neq], [], rfl⟩)) ∧
      ¬ ∀ span ∈ TraceStore.spansOf codeStore.traces (Vector.replicate 16 1),
        (codeStore.findAttribute span .span "code").isSome = true →
          (codeStore.spanMatchesCondition span (condition .neq) none = true ↔
            ¬ codeStore.spanMatchesCondition span (condition .eq) none = true) := by
  intro _ _ condition
  refine ⟨rfl, rfl, ?_⟩
  decide

end Aniani
