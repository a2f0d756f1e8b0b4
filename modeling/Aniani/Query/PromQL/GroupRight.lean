import Aniani.ForMathlib.PairJoin
import Aniani.Query.PromQL.Eval

/-!
# Grouped joins

`group_left` matches each series of the left side with the one right series of its key, and fails
when there are several. `group_right` is to do the same with the sides exchanged. The code for it
walks the left side, as the one for `group_left` does, and takes every right series with the key; it
never looks whether other left series have the key too.

## Main definitions

* `joinManyToOne` — many series, each with the one series of its key
* `mirroredGroupRight` — `group_left` with the sides exchanged and the values the same way round

## Main results

* `evalGroupLeft_eq` — `group_left` is such a join
* `groupRight_agrees_iff` — **when `group_right` is the mirror image**
-/

namespace Aniani

namespace PromQL

variable {F64 : Type}

/-! ### Many to one -/

section ManyToOne

variable (key : SeriesLabelSet → SeriesLabelSet) (error : SeriesLabelSet → PromQLError)
  (join : SeriesResult F64 → SeriesResult F64 → Option (SeriesResult F64))
  (oneSide : List (SeriesResult F64))

/-- The series of the one side with a key. -/
def withKey (k : SeriesLabelSet) : List (SeriesResult F64) :=
  oneSide.filter fun sr => key sr.labels == k

/-- Each series of the many side with the one series that has its key, an error if there are
several. -/
def joinManyToOne :
    List (SeriesResult F64) → Except PromQLError (List (SeriesResult F64))
  | [] => .ok []
  | many :: manySide =>
    match withKey key oneSide (key many.labels) with
    | [] => joinManyToOne manySide
    | [one] => (joinManyToOne manySide).map fun results => (join many one).toList ++ results
    | _ => .error (error (key many.labels))

variable {key error join oneSide}

/-- With at most one series each it is the join of the pairs that match. -/
theorem joinManyToOne_of_le {manySide : List (SeriesResult F64)}
    (h : ∀ many ∈ manySide, (withKey key oneSide (key many.labels)).length ≤ 1) :
    joinManyToOne key error join oneSide manySide =
      .ok (manySide.pairJoin oneSide fun many one =>
        if key one.labels == key many.labels then join many one else none) := by
  induction manySide with
  | nil => rfl
  | cons many manySide ih =>
    have hrest := ih fun m hm => h m (List.mem_cons_of_mem many hm)
    have hfilter := List.filterMap_filter
      (p := fun one : SeriesResult F64 => key one.labels == key many.labels) (f := join many)
      (l := oneSide)
    rw [List.pairJoin_cons, ← hfilter]
    have hle := h many List.mem_cons_self
    rw [withKey] at hle
    rw [joinManyToOne, withKey]
    cases hone : oneSide.filter fun one => key one.labels == key many.labels with
    | nil => exact hrest
    | cons one others =>
      rw [hone] at hle
      obtain rfl : others = [] := List.length_eq_zero_iff.mp (by simpa using hle)
      show Except.map _ _ = _
      rw [hrest]
      cases hj : join many one <;> simp [hj, Except.map]

/-- With several for some series it fails. -/
theorem joinManyToOne_of_lt {manySide : List (SeriesResult F64)}
    (h : ∃ many ∈ manySide, 1 < (withKey key oneSide (key many.labels)).length) :
    ∃ e, joinManyToOne key error join oneSide manySide = .error e := by
  induction manySide with
  | nil => simp at h
  | cons many manySide ih =>
    rw [joinManyToOne]
    split
    · next hone =>
      obtain ⟨m, hm, hlt⟩ := h
      rcases List.mem_cons.mp hm with rfl | hm
      · rw [hone] at hlt
        exact absurd hlt (by simp)
      · exact ih ⟨m, hm, hlt⟩
    · next one hone =>
      obtain ⟨m, hm, hlt⟩ := h
      rcases List.mem_cons.mp hm with rfl | hm
      · rw [hone] at hlt
        exact absurd hlt (by simp)
      · obtain ⟨e, he⟩ := ih ⟨m, hm, hlt⟩
        rw [he]
        exact ⟨e, rfl⟩
    · exact ⟨_, rfl⟩

end ManyToOne

/-! ### Left and right -/

section Sides

variable [FloatOps F64] (op : BinaryOp) (returnBool : Bool) (mode : MatchMode)
  (debugStr : String → String) (carry : List String)

/-- The error of a grouped join. -/
def severalMatches (text : String) (key : SeriesLabelSet) : PromQLError :=
  .eval (text ++ debugLabels debugStr key)

/-- **`group_left` is a join of many to one.** -/
theorem evalGroupLeft_eq (lhs rhs : List (SeriesResult F64)) :
    evalGroupLeft op returnBool mode debugStr carry rhs lhs =
      joinManyToOne mode.matchKey
        (severalMatches debugStr "group_left: multiple RHS series match labels ")
        (fun ls rs => seriesOf (carryLabels carry rs.labels ls.labels)
          (joinSamples op returnBool ls.samples rs.samples)) rhs lhs := by
  induction lhs with
  | nil => rfl
  | cons ls lhs ih =>
    rw [evalGroupLeft, joinManyToOne, ih]
    rfl

/-- `group_left` with the sides exchanged: each right series with the one left series of its key,
which the labels are carried from; the values are those of the left series op the right one. -/
def mirroredGroupRight (lhs rhs : List (SeriesResult F64)) :
    Except PromQLError (List (SeriesResult F64)) :=
  joinManyToOne mode.matchKey
    (severalMatches debugStr "group_right: multiple LHS series match labels ")
    (fun rs ls => seriesOf (carryLabels carry ls.labels rs.labels)
      (joinSamples op returnBool ls.samples rs.samples)) lhs rhs

/-- What the code computes, as a join. -/
theorem evalGroupRight_eq (lhs rhs : List (SeriesResult F64)) :
    evalGroupRight op returnBool mode carry lhs rhs = lhs.pairJoin rhs fun ls rs =>
      if mode.matchKey rs.labels == mode.matchKey ls.labels then
        seriesOf (carryLabels carry ls.labels rs.labels)
          (joinSamples op returnBool ls.samples rs.samples)
      else none :=
  List.pairJoin_filter lhs rhs (fun ls rs => mode.matchKey rs.labels == mode.matchKey ls.labels) _

/-- **When `group_right` is the mirror image of `group_left`**: exactly when no two left series have
the key of one right series. -/
theorem groupRight_agrees_iff {op : BinaryOp} (hop : op.isSetOp = false)
    (matching : Option LabelModifier) (lhs rhs : List (SeriesResult F64)) :
    Agree
        (evalBinaryResult debugStr op (some ⟨matching, .oneToMany carry, returnBool⟩)
          (.instantVector lhs) (.instantVector rhs))
        ((mirroredGroupRight op returnBool (MatchMode.fromModifier matching) debugStr carry lhs
          rhs).map .instantVector) ↔
      ∀ rs ∈ rhs, (withKey (MatchMode.fromModifier matching).matchKey lhs
        ((MatchMode.fromModifier matching).matchKey rs.labels)).length ≤ 1 := by
  have hcode : evalBinaryResult debugStr op (some ⟨matching, .oneToMany carry, returnBool⟩)
      (.instantVector lhs) (.instantVector rhs) = .ok (.instantVector
        (evalGroupRight op returnBool (MatchMode.fromModifier matching) carry lhs rhs)) := by
    rw [evalBinaryResult]
    simp only [Option.getD_some, hop]
    rfl
  rw [hcode]
  by_cases h : ∀ rs ∈ rhs, (withKey (MatchMode.fromModifier matching).matchKey lhs
      ((MatchMode.fromModifier matching).matchKey rs.labels)).length ≤ 1
  · refine iff_of_true ?_ h
    rw [mirroredGroupRight, joinManyToOne_of_le h, evalGroupRight_eq]
    refine (List.pairJoin_swap lhs rhs _).trans (List.Perm.of_eq ?_)
    congr 1
    funext rs ls
    rw [Bool.beq_comm]
  · refine iff_of_false (fun hagree => ?_) h
    push Not at h
    obtain ⟨e, he⟩ : ∃ e, mirroredGroupRight op returnBool (MatchMode.fromModifier matching) debugStr
        carry lhs rhs = .error e := joinManyToOne_of_lt h
    rw [he] at hagree
    exact absurd (show (Except.ok _ : Outcome F64) = .error e from hagree) (by simp)

end Sides

/-! ### One job, two instances -/

/-- A left side with one series of the job. -/
def oneInstance : List (SeriesResult ℤ) :=
  [⟨[("job", "a"), ("instance", "1")], [(1000, 10)]⟩]

/-- A left side with two. -/
def twoInstances : List (SeriesResult ℤ) :=
  oneInstance ++ [⟨[("job", "a"), ("instance", "2")], [(1000, 20)]⟩]

/-- The many side, with two series of the job. -/
def twoPaths : List (SeriesResult ℤ) :=
  [⟨[("job", "a"), ("path", "x")], [(1000, 1)]⟩, ⟨[("job", "a"), ("path", "y")], [(1000, 2)]⟩]

theorem groupRight_agrees_iff_oneInstance :
    Agree
      (evalBinaryResult id .sub (some ⟨some (.include ["job"]), .oneToMany ["instance"], false⟩)
        (.instantVector oneInstance) (.instantVector twoPaths))
      ((mirroredGroupRight .sub false (MatchMode.fromModifier (some (.include ["job"]))) id
        ["instance"] oneInstance twoPaths).map .instantVector) :=
  (groupRight_agrees_iff false id ["instance"] rfl (some (.include ["job"])) oneInstance
    twoPaths).mpr (by decide)

/-- With two left series of the job the code gives a result for each, the mirror image an error. -/
theorem not_groupRight_agrees_twoInstances :
    ¬ Agree
      (evalBinaryResult id .sub (some ⟨some (.include ["job"]), .oneToMany ["instance"], false⟩)
        (.instantVector twoInstances) (.instantVector twoPaths))
      ((mirroredGroupRight .sub false (MatchMode.fromModifier (some (.include ["job"]))) id
        ["instance"] twoInstances twoPaths).map .instantVector) := by
  intro h
  exact absurd (show (Except.ok _ : Outcome ℤ) = .error _ from h) (by simp)

end PromQL

end Aniani
