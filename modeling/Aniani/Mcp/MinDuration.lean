import Aniani.Mcp.Queries
import Aniani.Query.DurationValue
import Aniani.Query.TraceQL.Remainder

/-!
# The check of a minimum duration

`query_traces` writes its `min_duration` into a query as it is, after it was checked by the parser
of durations. That parser is another one than the parser of the query: it takes days, exponents,
signs and numbers with no unit, it takes only whole milliseconds and does not scale them, and it
trims more white space.

## Main definitions

* `durationQuery` — the query that is written for a text
* `Coincide` — the check takes a text if and only if its query is read, and both read one duration
* `DurationAgrees` — the texts of which this holds

## Main results

* `tracesQuery_minDuration` — the tool writes that query for a text that passes the check
* `coincide_iff` — `Coincide` holds exactly for the texts that `DurationAgrees`
-/

namespace Aniani

open Combinator Combinators

/-! ### A condition on the duration -/

namespace TraceQL

variable {F64 : Type}

/-- The duration that a condition compares with. -/
def conditionDuration : SpanCondition F64 → Option (CompareOp × ℕ)
  | .duration op duration => some (op, duration)
  | _ => none

/-- The durations that a query compares with. -/
def TraceQLExpr.durations : TraceQLExpr F64 → List (CompareOp × ℕ)
  | .spanSelector selector => selector.conditions.filterMap conditionDuration
  | .structural _ lhs rhs => lhs.durations ++ rhs.durations
  | .pipeline inner _ => inner.durations

end TraceQL

namespace Mcp

open TraceQL

/-! ### The query for a duration -/

namespace QueryTracesArgs

/-- The conditions that are written before the one on the duration. -/
def askedBefore (args : QueryTracesArgs) : List Asked :=
  (args.service.map Asked.service).toList ++
    (args.status.map fun status => Asked.status status.spanStatus).toList

/-- The conditions that are written after it. -/
def askedAfter (args : QueryTracesArgs) : List Asked := (args.name.map Asked.name).toList

end QueryTracesArgs

/-- The query that is written for a `min_duration`. -/
def durationQuery (args : QueryTracesArgs) (d : String) : String :=
  "\x7b " ++ " && ".intercalate (args.askedBefore.map Asked.text ++
    ("duration > " ++ d) :: args.askedAfter.map Asked.text) ++ " \x7d"

/-- **The tool writes this query** for a `min_duration` that passes the check, and answers that it
is invalid for one that is refused. -/
theorem tracesQuery_minDuration {F64 : Type} [FloatOps F64] (args : QueryTracesArgs) (d : String) :
    tracesQuery F64 { args with minDuration := some d, traceql := none } =
      (parseDuration F64 d).map fun
        | none => .error (invalidMinDuration d)
        | some _ => .ok (durationQuery args d) := by
  have hstatus : ∀ status : TraceStatus,
      "status = " ++ status.asStr = (Asked.status status.spanStatus).text := by
    intro status
    cases status <;> rfl
  rw [tracesQuery, durationConds]
  cases parseDuration F64 d with
  | none => rfl
  | some read =>
    cases read with
    | none => rfl
    | some duration =>
      have hconds : (args.service.map fun s =>
            "resource.service.name = \"" ++ escapeQuoted s ++ "\"").toList ++
          (args.status.map fun status => "status = " ++ status.asStr).toList ++
            ["duration > " ++ d] ++
              (args.name.map fun n => "name = \"" ++ escapeQuoted n ++ "\"").toList =
          args.askedBefore.map Asked.text ++
            ("duration > " ++ d) :: args.askedAfter.map Asked.text := by
        simp only [hstatus, QueryTracesArgs.askedBefore, QueryTracesArgs.askedAfter]
        cases args.service <;> cases args.status <;> cases args.name <;> rfl
      simp only [Option.map_some]
      show some (if List.isEmpty (_ ++ _ ++ ["duration > " ++ d] ++ _) then _ else _) = _
      rw [hconds, durationQuery]
      simp

/-- Conditions that are written before one, and others after it. -/
theorem toList_intercalate_texts (before after : List Asked) (text : String) :
    (" && ".intercalate (before.map Asked.text ++ text :: after.map Asked.text)).toList =
      beforeText before ++
        (text.toList ++ after.flatMap fun a => " && ".toList ++ a.text.toList) := by
  induction before with
  | nil => rw [List.map_nil, List.nil_append, toList_intercalate_cons, List.flatMap_map]; rfl
  | cons a before ih =>
    have hstep : ∀ (t : String) (ts : List String), ts ≠ [] →
        (" && ".intercalate (t :: ts)).toList =
          t.toList ++ (" && ".toList ++ (" && ".intercalate ts).toList) := by
      intro t ts hts
      obtain ⟨u, us, rfl⟩ := List.exists_cons_of_ne_nil hts
      rw [toList_intercalate_cons, toList_intercalate_cons, List.flatMap_cons]
      simp only [List.append_assoc]
    rw [List.map_cons, List.cons_append, hstep _ _ (by simp), ih, beforeText, beforeText,
      List.flatMap_cons]
    simp only [List.append_assoc]

/-- The characters of the query. -/
theorem toList_durationQuery (args : QueryTracesArgs) (d : String) :
    (durationQuery args d).toList = '{' :: ' ' :: (beforeText args.askedBefore ++
      ("duration > ".toList ++ (d.toList ++ moreText args.askedAfter))) := by
  rw [durationQuery, String.toList_append, String.toList_append, toList_intercalate_texts,
    String.toList_append, moreText]
  simp

theorem trim_durationQuery (args : QueryTracesArgs) (d : String) :
    Text.trim (durationQuery args d).toList = (durationQuery args d).toList := by
  have hends : (durationQuery args d).toList = '{' :: ((' ' :: (beforeText args.askedBefore ++
      ("duration > ".toList ++ (d.toList ++
        ((args.askedAfter.flatMap fun a => " && ".toList ++ a.text.toList) ++ [' ']))))) ++
          ['}']) := by
    rw [toList_durationQuery, moreText]
    simp
  rw [hends]
  exact trim_of_ends (by decide) (by decide) _

/-! ### The check and the parser of the query -/

section Coincide

variable {F64 : Type} [Combinators Char] [Alphanumeric] [FloatOps F64]

variable (F64) in
/-- **The check and the parser of the query coincide** on a text: one takes it if and only if the
other does, and the duration that the query compares with is the one that was checked. -/
structure Coincide (display : Err Char → String) (args : QueryTracesArgs) (d : String) : Prop where
  accepted_iff : (∃ duration, parseDuration F64 d = some (some duration)) ↔
    ∃ expr : TraceQLExpr F64, parseTraceql display (durationQuery args d) = some (.ok expr)
  threshold : ∀ {duration} {expr : TraceQLExpr F64}, parseDuration F64 d = some (some duration) →
    parseTraceql display (durationQuery args d) = some (.ok expr) →
      expr.durations = [(.gt, duration)]

variable (F64) in
/-- **The texts on which they coincide.** A literal of TraceQL with only white space of TraceQL
after it, which in milliseconds is read alike by both; and any other text that neither takes: it is
no duration, and if it starts with a literal, what comes after that does not go on as a query. -/
def DurationAgrees (args : QueryTracesArgs) (d : String) : Prop :=
  match literalParts d.toList with
  | none => durationNanos (Text.trim d.toList) = none
  | some (number, unit, rest) =>
    if rest.all isMultispace then unit = ['m', 's'] → MillisExact number
    else durationNanos (Text.trim d.toList) = none ∧
      ((secondsOf number (unitFactor unit)).isSome →
        ¬ GoesOn F64 (rest ++ moreText args.askedAfter))

omit [Combinators Char] [Alphanumeric] [FloatOps F64] in
/-- What is written after a text is a space, and then no number. -/
theorem exists_moreText (after : List Asked) : ∃ u, moreText after = ' ' :: u ∧
    ∀ c ∈ (u.dropWhile isMultispace).head?, isNumberChar c = false := by
  cases after with
  | nil =>
    refine ⟨['}'], rfl, fun c hc => ?_⟩
    obtain rfl := Option.mem_some.mp hc
    rfl
  | cons a after =>
    refine ⟨"&& ".toList ++ (a.text.toList ++ moreText after), by simp [moreText], ?_⟩
    have hskip : ("&& ".toList ++ (a.text.toList ++ moreText after)).dropWhile isMultispace =
        "&& ".toList ++ (a.text.toList ++ moreText after) :=
      List.dropWhile_cons_of_neg (by decide)
    rw [hskip]
    intro c hc
    obtain rfl := Option.some.inj hc
    decide

variable [Binary64 F64]

/-- The condition on the duration is read as the literal that its text starts with. -/
theorem parseCondition_minDuration_iff {args : QueryTracesArgs} {s r : List Char}
    {condition : SpanCondition F64} :
    parseCondition ("duration > ".toList ++ (s ++ moreText args.askedAfter)) =
        .ok (r, condition) ↔
      ∃ number unit rest duration, literalParts s = some (number, unit, rest) ∧
        r = rest ++ moreText args.askedAfter ∧
        (secondsOf number (unitFactor unit)).map nanos = some duration ∧
        condition = .duration .gt duration := by
  obtain ⟨u, hmore, hu⟩ := exists_moreText args.askedAfter
  rw [parseCondition_duration, map_snd_eq_ok_iff, hmore]
  simp only [parseDurationValue_append_iff hu]
  constructor
  · rintro ⟨duration, ⟨number, unit, rest, hparts, hrest, hduration⟩, hcondition⟩
    exact ⟨number, unit, rest, duration, hparts, hrest, hduration, hcondition⟩
  · rintro ⟨number, unit, rest, duration, hparts, hrest, hduration, hcondition⟩
    exact ⟨duration, ⟨number, unit, rest, hparts, hrest, hduration⟩, hcondition⟩

variable (display : Err Char → String) (args : QueryTracesArgs) (d : String)

/-- **The query is read** when its text starts with a literal, after which the query goes on. -/
theorem exists_parseTraceql_durationQuery_iff :
    (∃ expr : TraceQLExpr F64, parseTraceql display (durationQuery args d) = some (.ok expr)) ↔
      ∃ number unit rest, literalParts d.toList = some (number, unit, rest) ∧
        (secondsOf number (unitFactor unit)).isSome ∧
        GoesOn F64 (rest ++ moreText args.askedAfter) := by
  rw [exists_parseTraceql_beforeText_iff display args.askedBefore (by simp [isMultispace])
    (by simp) (toList_durationQuery args d) (trim_durationQuery args d)]
  simp only [parseCondition_minDuration_iff]
  constructor
  · rintro ⟨_, _, ⟨number, unit, rest, duration, hparts, rfl, hduration, -⟩, hgoes⟩
    refine ⟨number, unit, rest, hparts, ?_, hgoes⟩
    obtain ⟨secs, hsecs, -⟩ := Option.map_eq_some_iff.mp hduration
    exact Option.isSome_of_eq_some hsecs
  · rintro ⟨number, unit, rest, hparts, hsecs, hgoes⟩
    obtain ⟨secs, hsecs⟩ := Option.isSome_iff_exists.mp hsecs
    exact ⟨_, _, ⟨number, unit, rest, nanos secs, hparts, rfl, by rw [hsecs]; rfl, rfl⟩, hgoes⟩

/-- The query of a literal with white space after it is read with that literal. -/
theorem parseTraceql_durationQuery {number unit rest : List Char}
    (hparts : literalParts d.toList = some (number, unit, rest))
    (hrest : ∀ c ∈ rest, isMultispace c = true) {duration : ℕ}
    (hduration : (secondsOf number (unitFactor unit)).map nanos = some duration) :
    ∃ expr : TraceQLExpr F64, parseTraceql display (durationQuery args d) = some (.ok expr) ∧
      expr.durations = [(.gt, duration)] := by
  have hcondition : parseCondition ("duration > ".toList ++
      (d.toList ++ moreText args.askedAfter)) =
        .ok (rest ++ moreText args.askedAfter, (.duration .gt duration : SpanCondition F64)) :=
    parseCondition_minDuration_iff.mpr ⟨number, unit, rest, duration, hparts, rfl, hduration, rfl⟩
  refine ⟨_, parseTraceql_beforeText display args.askedBefore args.askedAfter
    (by simp [isMultispace]) (by simp) hrest hcondition (toList_durationQuery args d)
    (trim_durationQuery args d), ?_⟩
  have hnone : ∀ asked : Asked, conditionDuration (asked.condition : SpanCondition F64) = none := by
    intro asked
    cases asked <;> rfl
  have hsome : conditionDuration (.duration .gt duration : SpanCondition F64) =
      some (.gt, duration) := rfl
  rw [TraceQLExpr.durations, conditions_selectorAfter]
  simp [hsome, List.filterMap_map, Function.comp_def, hnone]

/-- On a literal with white space after it, they coincide when both read the same number of
nanoseconds. -/
theorem coincide_iff_of_literal {number unit rest : List Char}
    (hparts : literalParts d.toList = some (number, unit, rest))
    (hrest : ∀ c ∈ rest, isMultispace c = true) :
    Coincide F64 display args d ↔
      durationNanos (number ++ unit) = (secondsOf number (unitFactor unit)).map nanos := by
  have htrim : Text.trim d.toList = number ++ unit :=
    trim_of_literalParts hparts fun c hc => isWhitespace_of_isMultispace (hrest c hc)
  have hcheck : ∀ {duration}, parseDuration F64 d = some (some duration) ↔
      durationNanos (number ++ unit) = some duration := by
    intro duration
    rw [parseDuration_eq_some_iff, htrim]
  have hread : ∀ {duration}, (secondsOf number (unitFactor unit)).map nanos = some duration →
      ∃ expr : TraceQLExpr F64, parseTraceql display (durationQuery args d) = some (.ok expr) ∧
        expr.durations = [(.gt, duration)] :=
    fun hduration => parseTraceql_durationQuery display args d hparts hrest hduration
  constructor
  · rintro ⟨haccepted, hthreshold⟩
    cases hliteral : (secondsOf number (unitFactor unit)).map nanos with
    | none =>
      rw [Option.eq_none_iff_forall_ne_some]
      intro duration hduration
      obtain ⟨expr, hexpr⟩ := haccepted.mp ⟨duration, hcheck.mpr hduration⟩
      obtain ⟨_, _, _, hparts', hsecs, -⟩ :=
        (exists_parseTraceql_durationQuery_iff display args d).mp ⟨expr, hexpr⟩
      obtain ⟨rfl, hunit⟩ := Prod.mk.inj (Option.some.inj (hparts.symm.trans hparts'))
      obtain ⟨rfl, rfl⟩ := Prod.mk.inj hunit
      rw [Option.map_eq_none_iff.mp hliteral] at hsecs
      exact absurd hsecs (by simp)
    | some duration =>
      obtain ⟨expr, hexpr, hdurations⟩ := hread hliteral
      obtain ⟨duration', hduration'⟩ := haccepted.mpr ⟨expr, hexpr⟩
      have heq := (hthreshold hduration' hexpr).symm.trans hdurations
      obtain rfl : duration' = duration := by simpa using heq
      exact hcheck.mp hduration'
  · intro heq
    refine ⟨?_, ?_⟩
    · constructor
      · rintro ⟨duration, hduration⟩
        obtain ⟨expr, hexpr, -⟩ := hread (heq ▸ hcheck.mp hduration)
        exact ⟨expr, hexpr⟩
      · intro hexpr
        obtain ⟨_, _, _, hparts', hsecs, -⟩ :=
          (exists_parseTraceql_durationQuery_iff display args d).mp hexpr
        obtain ⟨rfl, hunit⟩ := Prod.mk.inj (Option.some.inj (hparts.symm.trans hparts'))
        obtain ⟨rfl, rfl⟩ := Prod.mk.inj hunit
        obtain ⟨secs, hsecs⟩ := Option.isSome_iff_exists.mp hsecs
        exact ⟨nanos secs, hcheck.mpr (by rw [heq, hsecs]; rfl)⟩
    · intro duration expr hduration hexpr
      obtain ⟨expr', hexpr', hdurations⟩ := hread (heq ▸ hcheck.mp hduration)
      obtain rfl := Except.ok.inj (Option.some.inj (hexpr.symm.trans hexpr'))
      exact hdurations

/-- Where what the parser needs is missing, they coincide when the check takes nothing either. -/
theorem coincide_iff_of_not_read
    (h : ¬ ∃ expr : TraceQLExpr F64,
      parseTraceql display (durationQuery args d) = some (.ok expr)) :
    Coincide F64 display args d ↔ durationNanos (Text.trim d.toList) = none := by
  rw [Option.eq_none_iff_forall_ne_some]
  constructor
  · rintro ⟨haccepted, -⟩ duration hduration
    exact h (haccepted.mp ⟨duration, (parseDuration_eq_some_iff d).mpr hduration⟩)
  · intro hnone
    refine ⟨iff_of_false ?_ h, fun {_ expr} _ hexpr => absurd ⟨expr, hexpr⟩ h⟩
    rintro ⟨duration, hduration⟩
    exact hnone duration ((parseDuration_eq_some_iff d).mp hduration)

omit [Binary64 F64] in
/-- A query does not go on after white space that TraceQL does not know. -/
theorem not_goesOn_of_isWhitespace {rest tail : List Char}
    (hspace : ∀ c ∈ rest, Text.isWhitespace c = true)
    (hrest : ¬ ∀ c ∈ rest, isMultispace c = true) : ¬ GoesOn F64 (rest ++ tail) := by
  have hne : rest.dropWhile isMultispace ≠ [] := fun h => hrest (List.dropWhile_eq_nil_iff.mp h)
  obtain ⟨c, r, hskip⟩ := List.exists_cons_of_ne_nil hne
  have hc := hspace c ((List.dropWhile_suffix isMultispace).subset (by simp [hskip]))
  have hhead : (rest ++ tail).dropWhile isMultispace = c :: (r ++ tail) := by
    rw [List.dropWhile_append, hskip, List.isEmpty_cons, if_neg Bool.false_ne_true]
    rfl
  refine not_goesOn_of_head hhead ?_
  intro hmem
  simp only [List.mem_cons, List.not_mem_nil, or_false] at hmem
  obtain rfl | rfl | rfl := hmem <;> exact absurd hc (by decide)

/-- **The check and the parser of the query** coincide exactly on these texts. -/
theorem coincide_iff : Coincide F64 display args d ↔ DurationAgrees F64 args d := by
  rw [DurationAgrees]
  cases hparts : literalParts d.toList with
  | none =>
    refine coincide_iff_of_not_read display args d ?_
    rw [exists_parseTraceql_durationQuery_iff]
    rintro ⟨_, _, _, hparts', -⟩
    exact absurd (hparts.symm.trans hparts') (by simp)
  | some parts =>
    obtain ⟨number, unit, rest⟩ := parts
    obtain ⟨-, hnumber, hliteral⟩ := literalParts_spec hparts
    dsimp only
    split_ifs with hrest <;> rw [List.all_eq_true] at hrest
    · rw [coincide_iff_of_literal display args d hparts hrest,
        durationNanos_append hnumber (mem_of_literalUnit hliteral)]
      split_ifs with hmillis
      · subst hmillis
        rw [millisExact_iff, unitFactor, imp_iff_right rfl]
      · exact iff_of_true rfl fun h => absurd h hmillis
    · have hread : (∃ expr : TraceQLExpr F64,
          parseTraceql display (durationQuery args d) = some (.ok expr)) ↔
            (secondsOf number (unitFactor unit)).isSome ∧
              GoesOn F64 (rest ++ moreText args.askedAfter) := by
        rw [exists_parseTraceql_durationQuery_iff]
        simp [hparts]
      cases hduration : durationNanos (Text.trim d.toList) with
      | none =>
        rw [and_iff_right rfl, ← not_and, ← hread]
        constructor
        · rintro ⟨haccepted, -⟩ hexpr
          obtain ⟨duration, hcheck⟩ := haccepted.mpr hexpr
          have hsome := (parseDuration_eq_some_iff d).mp hcheck
          exact absurd (hduration.symm.trans hsome) (by simp)
        · exact fun h => (coincide_iff_of_not_read display args d h).mpr hduration
      | some duration =>
        -- then nothing but white space comes after the literal, and the query does not go on
        have hstop : ¬ GoesOn F64 (rest ++ moreText args.askedAfter) :=
          not_goesOn_of_isWhitespace (all_isWhitespace_of_durationNanos hparts hduration) hrest
        rw [coincide_iff_of_not_read display args d fun h => hstop (hread.mp h).2, hduration]
        simp

omit [Binary64 F64] in
/-- The usual texts are among them: digits and a unit, and milliseconds up to ninety-seven days. -/
theorem durationAgrees_of_parseDigits {digits unit : List Char} {n : ℕ}
    (hd : d.toList = digits ++ unit) (hdigits : parseDigits digits = some n)
    (hunit : unit ∈ [['m', 's'], ['s'], ['m'], ['h']])
    (hn : unit = ['m', 's'] → n < 8388608000) : DurationAgrees F64 args d := by
  have hnumber : ∀ c ∈ digits, isNumberChar c = true := by
    intro c hc
    rw [isNumberChar, all_isDigit_of_parseDigits hdigits c hc, Bool.true_or]
  have hskip : (digits ++ unit).dropWhile isMultispace = digits ++ unit := by
    cases digits with
    | nil => exact absurd hdigits (by simp [parseDigits])
    | cons c digits =>
      refine List.dropWhile_cons_of_neg fun hc => ?_
      have hspace := not_isWhitespace_of_isNumberChar (hnumber c List.mem_cons_self)
      exact absurd (isWhitespace_of_isMultispace hc) (by simp [hspace])
  have hparts : literalParts d.toList = some (digits, unit, []) := by
    have hstop : unit.takeWhile isNumberChar = [] ∧ unit.dropWhile isNumberChar = unit ∧
        literalUnit unit = some unit := by
      simp only [List.mem_cons, List.not_mem_nil, or_false] at hunit
      obtain rfl | rfl | rfl | rfl := hunit <;> decide
    rw [literalParts, hd, hskip, List.takeWhile_append_of_pos hnumber,
      List.dropWhile_append_of_pos hnumber, hstop.1, hstop.2.1, hstop.2.2, List.append_nil]
    simp
  rw [DurationAgrees, hparts]
  dsimp only
  rw [if_pos List.all_nil]
  exact fun hmillis => millisExact_of_parseDigits hdigits (hn hmillis)

end Coincide

/-- **A day passes the check**, and its query is not read. -/
theorem not_coincide_days :
    ¬ @Coincide Double Combinators.ofLists Alphanumeric.ascii _ (fun _ => "")
      ⟨none, none, none, none, none, none⟩ "1d" := by
  let _ : Combinators Char := Combinators.ofLists
  let _ : Alphanumeric := Alphanumeric.ascii
  have hparts : literalParts "1d".toList = none := by decide
  have hread : ¬ ∃ expr : TraceQLExpr Double, parseTraceql (fun _ => "")
      (durationQuery ⟨none, none, none, none, none, none⟩ "1d") = some (.ok expr) := by
    rw [exists_parseTraceql_durationQuery_iff, hparts]
    simp
  have hseconds : secondsOf ['1'] 86400 = some 86400 := by
    have hday := secondsOf_of_parseDigits (show parseDigits ['1'] = some 1 by decide) 86400
      (by decide) (by decide)
    exact_mod_cast hday
  have hduration : durationNanos (Text.trim "1d".toList) = some (nanos 86400) := by
    have htrim : Text.trim "1d".toList = ['1', 'd'] := by decide
    have hmillis : ['1', 'd'].dropSuffix? ['m', 's'] = none := by decide
    have hday : durationParts ['1', 'd'] = (['1'], 86400) := by decide
    have hnumber : Text.trim ['1'] = ['1'] := by decide
    rw [htrim, durationNanos, hmillis, hday]
    dsimp only
    rw [hnumber]
    exact congrArg (Option.map nanos) hseconds
  rw [coincide_iff_of_not_read _ _ _ hread, hduration]
  simp

end Mcp

end Aniani
