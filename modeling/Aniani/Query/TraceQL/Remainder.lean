import Aniani.Query.TraceQL.Parser

/-!
# What is left of a query

Every part of the TraceQL parser leaves an end of its input. So the loop over the conditions takes
no more turns than there are characters, and its supply of turns does not matter as long as it is
larger than that.

A query with a condition among some that are asked for is then read in two parts: that condition by
itself, and what it leaves.

## Main definitions

* `GoesOn` — a text goes on as a query does after a condition of its first selector
* `beforeText`, `selectorAfter` — the conditions before one of them, and the selector of all

## Main results

* `ends_parseCondition` — a condition leaves an end of its input
* `parseMoreConditions_eq` — the supply of turns does not matter
* `exists_parseTraceql_beforeText_iff` — a query is read for a condition and what comes after it
* `parseTraceql_beforeText` — what is read when only conditions that are asked for come after it
-/

namespace Aniani

open Combinator Combinators

namespace TraceQL

variable {F64 : Type} [Combinators Char]

theorem ends_spacedCompareOp (input : List Char) : Ends input (spacedCompareOp input) := by
  refine (ends_multispace0 input).bind fun rest _ => ?_
  refine Ends.bind ?_ fun rest _ => ?_
  · refine ends_alt (by simp) fun p hp => ?_
    simp only [List.mem_cons, List.not_mem_nil, or_false] at hp
    obtain rfl | rfl | rfl | rfl | rfl | rfl | rfl := hp <;> exact ends_map (ends_tag _ _) _
  · refine (ends_multispace0 rest).bind fun rest _ => ?_
    exact ends_ok List.suffix_rfl _

variable [Alphanumeric]

variable (F64) in
theorem ends_parseBoolValue (input : List Char) : Ends input (parseBoolValue F64 input) := by
  refine Ends.bind (ends_alt (by simp) fun p hp => ?_) fun rest word => ?_
  · simp only [List.mem_cons, List.not_mem_nil, or_false] at hp
    obtain rfl | rfl := hp <;> exact ends_tag _ _
  · dsimp only
    split
    · exact ends_error _ _
    · exact ends_ok List.suffix_rfl _

variable [FloatOps F64]

omit [Alphanumeric] in
theorem ends_parseNumericValue (input : List Char) :
    Ends input (parseNumericValue input : Except (Err Char) (List Char × SpanValue F64)) := by
  refine (ends_takeWhile1 _ input).bind fun rest number => ?_
  dsimp only
  split
  · cases (FloatOps.parse (String.ofList number) : Option F64) with
    | none => exact ends_error _ _
    | some value => exact ends_ok List.suffix_rfl _
  · cases parseI64 (String.ofList number) with
    | none => exact ends_error _ _
    | some value => exact ends_ok List.suffix_rfl _

theorem ends_parseSpanValue (input : List Char) :
    Ends input (parseSpanValue input : IResult Char (SpanValue F64)) := by
  refine ends_alt (by simp) fun p hp => ?_
  simp only [List.mem_cons, List.not_mem_nil, or_false] at hp
  obtain rfl | rfl | rfl := hp
  · exact ends_map (ends_quotedString input) _
  · exact ends_parseBoolValue F64 input
  · exact ends_parseNumericValue input

omit [Alphanumeric] in
variable (F64) in
theorem ends_parseDurationValue (input : List Char) :
    Ends input (parseDurationValue F64 input) := by
  refine (ends_takeWhile1 _ input).bind fun rest number => ?_
  refine Ends.bind (ends_alt (by simp) fun p hp => ?_) fun rest unit => ?_
  · simp only [List.mem_cons, List.not_mem_nil, or_false] at hp
    obtain rfl | rfl | rfl | rfl := hp <;> exact ends_tag _ _
  · dsimp only
    cases (FloatOps.parse (String.ofList number) : Option F64) with
    | none => exact ends_error _ _
    | some num =>
      dsimp only
      cases unitSeconds F64 num unit with
      | none => exact ends_error _ _
      | some secs =>
        dsimp only
        split
        · exact ends_error _ _
        · cases FloatOps.fromSecsF64 secs with
          | none => exact ends_error _ _
          | some duration => exact ends_ok List.suffix_rfl _

omit [Alphanumeric] [FloatOps F64] in
theorem ends_parseWordCondition {α : Type} (keyword : List Char) {words : List (String × α)}
    (hne : words ≠ []) (input : List Char) :
    Ends input (parseWordCondition keyword words input) := by
  refine (ends_tag keyword input).bind fun rest _ => ?_
  refine (ends_spacedCompareOp rest).bind fun rest op => ?_
  refine Ends.bind (ends_alt (by simpa using hne) fun p hp => ?_) fun rest value => ?_
  · obtain ⟨word, -, rfl⟩ := List.mem_map.mp hp
    exact ends_map (ends_tag _ _) _
  · dsimp only
    split
    · exact ends_ok List.suffix_rfl _
    · exact ends_error _ _

/-- **A condition leaves an end of its input.** -/
theorem ends_parseCondition (input : List Char) :
    Ends input (parseCondition input : Except (Err Char) (List Char × SpanCondition F64)) := by
  refine (ends_multispace0 input).bind fun rest _ => ?_
  dsimp only
  split_ifs
  · refine (ends_tag _ rest).bind fun rest _ => (ends_spacedCompareOp rest).bind fun rest op => ?_
    exact (ends_parseDurationValue F64 rest).bind fun rest _ => ends_ok List.suffix_rfl _
  · exact (ends_parseWordCondition _ (by simp) rest).bind fun rest _ => ends_ok List.suffix_rfl _
  · exact (ends_parseWordCondition _ (by simp) rest).bind fun rest _ => ends_ok List.suffix_rfl _
  · refine (ends_tag _ rest).bind fun rest _ => (ends_spacedCompareOp rest).bind fun rest op => ?_
    exact (ends_quotedString rest).bind fun rest _ => ends_ok List.suffix_rfl _
  · refine (ends_tag _ rest).bind fun rest _ => (ends_takeWhile1 _ rest).bind fun rest key => ?_
    refine (ends_spacedCompareOp rest).bind fun rest op => ?_
    dsimp only
    split
    · exact (ends_quotedString rest).bind fun rest _ => ends_ok List.suffix_rfl _
    · exact (ends_parseSpanValue rest).bind fun rest _ => ends_ok List.suffix_rfl _
  · refine (ends_takeWhile1 _ rest).bind fun rest name => ?_
    refine (ends_spacedCompareOp rest).bind fun rest op => ?_
    exact (ends_parseSpanValue rest).bind fun rest _ => ends_ok List.suffix_rfl _

/-! ### Turns -/

omit [Alphanumeric] [FloatOps F64] in
/-- An operator takes characters. -/
theorem length_lt_of_parseLogicalOp {input rest : List Char} {op : LogicalOp}
    (h : parseLogicalOp input = .ok (rest, op)) : rest.length < input.length := by
  rw [parseLogicalOp, map_eq] at h
  obtain ⟨hfound, hmissing⟩ := alt_tags (show [['&', '&'], ['|', '|']] ≠ [] by simp) input
  cases hword : [['&', '&'], ['|', '|']].find? (·.isPrefixOf input) with
  | none =>
    obtain ⟨e, he⟩ := hmissing hword
    change Except.map _ (alt ([['&', '&'], ['|', '|']].map tag) input) = _ at h
    rw [he] at h
    exact absurd h (by simp [Except.map])
  | some word =>
    change Except.map _ (alt ([['&', '&'], ['|', '|']].map tag) input) = _ at h
    rw [hfound word hword] at h
    obtain ⟨rfl, -⟩ := Prod.mk.inj (Except.ok.inj h)
    have hfound' := List.find?_some (p := fun w : List Char => w.isPrefixOf input) hword
    have hprefix := (List.isPrefixOf_iff_prefix.mp hfound').length_le
    have hmem := List.mem_of_find?_eq_some hword
    have hlength : word.length = 2 := by
      simp only [List.mem_cons, List.not_mem_nil, or_false] at hmem
      obtain rfl | rfl := hmem <;> rfl
    rw [List.length_drop]
    omega

/-- One turn more makes no difference, if there are more turns than characters. -/
theorem parseMoreConditions_succ {n : ℕ} {input : List Char} (h : input.length < n) :
    parseMoreConditions F64 (n + 1) input = parseMoreConditions F64 n input := by
  induction n generalizing input with
  | zero => exact absurd h (Nat.not_lt_zero _)
  | succ n ih =>
    conv_lhs => rw [parseMoreConditions]
    conv_rhs => rw [parseMoreConditions]
    have hspace : multispace0 input =
        .ok (input.dropWhile isMultispace, input.takeWhile isMultispace) := takeWhile0_eq _ _
    have hskip := (List.dropWhile_suffix (l := input) isMultispace).length_le
    simp only [bind, Except.bind, hspace]
    cases hop : parseLogicalOp (input.dropWhile isMultispace) with
    | error e => rfl
    | ok r =>
      obtain ⟨rest, op⟩ := r
      have hlt := length_lt_of_parseLogicalOp hop
      have hspace' : multispace0 rest =
          .ok (rest.dropWhile isMultispace, rest.takeWhile isMultispace) := takeWhile0_eq _ _
      have hskip' := (List.dropWhile_suffix (l := rest) isMultispace).length_le
      simp only [hspace']
      cases hcond : (parseCondition (rest.dropWhile isMultispace) :
        Except (Err Char) (List Char × SpanCondition F64)) with
      | error e => cases e <;> rfl
      | ok r =>
        obtain ⟨rest', condition⟩ := r
        have hend := (ends_parseCondition _ _ _ hcond).length_le
        simp only [ih (show rest'.length < n by omega)]

/-- **The supply of turns does not matter**, if it is larger than the input. -/
theorem parseMoreConditions_eq {n : ℕ} {input : List Char} (h : input.length < n) :
    parseMoreConditions F64 n input = parseMoreConditions F64 (input.length + 1) input := by
  obtain ⟨k, rfl⟩ := Nat.exists_eq_add_of_lt h
  induction k with
  | zero => rfl
  | succ k ih =>
    rw [show input.length + (k + 1) + 1 = (input.length + k + 1) + 1 by omega,
      parseMoreConditions_succ (by omega), ih (by omega)]

/-! ### The rest of a query -/

variable (F64) in
/-- What is left after the selectors is pipeline stages. -/
def Finishes (input : List Char) : Prop :=
  ∃ rest stages, parsePipelineStages F64 ((Text.trim input).length + 1) (Text.trim input) =
    .ok (rest, stages) ∧ (Text.trim rest).isEmpty

variable (F64) in
/-- What is left after the first selector is the end of a query. -/
def Concludes (input : List Char) : Prop :=
  match parseStructuralOp (input.dropWhile isMultispace) with
  | .ok (rest, _) => ∃ rest' rhs, parseSpanSelector (rest.dropWhile isMultispace) =
      .ok (rest', (rhs : TraceQLExpr F64)) ∧ Finishes F64 rest'
  | .error _ => Finishes F64 (input.dropWhile isMultispace)

variable (F64) in
/-- What is left after a condition of the first selector goes on as a query does: with conditions,
the closing brace, and the end of a query. -/
def GoesOn (input : List Char) : Prop :=
  ∃ rest more rest', parseMoreConditions F64 (input.length + 1) input = .ok (rest, more) ∧
    rest.dropWhile isMultispace = '}' :: rest' ∧ Concludes F64 rest'

omit [Alphanumeric] in
theorem exists_finishParse_iff (input : List Char) (expr : TraceQLExpr F64) :
    (∃ result, finishParse input expr = some (.ok result)) ↔ Finishes F64 input := by
  rw [finishParse, Finishes]
  cases parsePipelineStages F64 ((Text.trim input).length + 1) (Text.trim input) with
  | error e => simp
  | ok r =>
    obtain ⟨rest, stages⟩ := r
    cases hempty : (Text.trim rest).isEmpty <;> simp [hempty, -List.isEmpty_iff]

/-- A query is read when its first selector is, and what comes after it ends a query. -/
theorem exists_parseTraceql_iff (display : Err Char → String) {query : String}
    (htrim : Text.trim query.toList = query.toList) :
    (∃ expr : TraceQLExpr F64, parseTraceql display query = some (.ok expr)) ↔
      ∃ rest, ∃ lhs : TraceQLExpr F64, parseSpanSelector query.toList = .ok (rest, lhs) ∧
        Concludes F64 rest := by
  rw [parseTraceql, htrim, parseTopLevel]
  cases hselector : (parseSpanSelector query.toList :
    Except (Err Char) (List Char × TraceQLExpr F64)) with
  | error e => cases e <;> simp [bind, Except.bind]
  | ok r =>
    obtain ⟨rest, lhs⟩ := r
    have hspace : ∀ s : List Char, multispace0 s =
        .ok (s.dropWhile isMultispace, s.takeWhile isMultispace) := fun s => takeWhile0_eq _ s
    have hright : (∃ rest', ∃ lhs' : TraceQLExpr F64, Except.ok (ε := Err Char) (rest, lhs) =
        .ok (rest', lhs') ∧ Concludes F64 rest') ↔ Concludes F64 rest := by
      simp only [Except.ok.injEq, Prod.mk.injEq, and_assoc, exists_eq_left',
        exists_and_left]
    rw [hright, Concludes]
    simp only [bind, Except.bind, hspace]
    cases parseStructuralOp (rest.dropWhile isMultispace) with
    | error e => exact exists_finishParse_iff _ lhs
    | ok r =>
      obtain ⟨rest', op⟩ := r
      dsimp only
      cases (parseSpanSelector (rest'.dropWhile isMultispace) :
        Except (Err Char) (List Char × TraceQLExpr F64)) with
      | error e => cases e <;> simp
      | ok r =>
        have hfinish := exists_finishParse_iff r.1 (.structural op lhs r.2)
        simp only [Except.ok.injEq]
        refine hfinish.trans ?_
        constructor
        · exact fun h => ⟨r.1, r.2, rfl, h⟩
        · rintro ⟨rest'', rhs, rfl, h⟩
          exact h

omit [Alphanumeric] in
/-- The end of a query that is read as a selector adds nothing to it. -/
theorem eq_of_finishParse {remaining : List Char} {expr : TraceQLExpr F64}
    {selector : SpanSelector F64}
    (h : finishParse remaining expr = some (.ok (.spanSelector selector))) :
    expr = .spanSelector selector := by
  rw [finishParse] at h
  dsimp only at h
  split at h
  · cases h
  · split_ifs at h
    · exact Except.ok.inj (Option.some.inj h)
    · cases Except.ok.inj (Option.some.inj h)
    · cases Option.some.inj h

/-- A query that is read as a selector starts with that selector. -/
theorem exists_parseSpanSelector (display : Err Char → String) {query : String}
    {selector : SpanSelector F64} (htrim : Text.trim query.toList = query.toList)
    (h : parseTraceql display query = some (.ok (.spanSelector selector))) :
    ∃ rest, parseSpanSelector query.toList =
      .ok (rest, (.spanSelector selector : TraceQLExpr F64)) := by
  rw [parseTraceql, htrim] at h
  cases htop : (parseTopLevel query.toList :
    Except (Err Char) (List Char × TraceQLExpr F64)) with
  | error e =>
    rw [htop] at h
    cases e <;> cases h
  | ok r =>
    obtain ⟨remaining, expr⟩ := r
    rw [htop] at h
    have hexpr : expr = .spanSelector selector := eq_of_finishParse h
    obtain ⟨⟨rest, lhs⟩, hselector, hread⟩ := exists_of_bind_eq_ok htop
    obtain ⟨_, -, hread⟩ := exists_of_bind_eq_ok hread
    dsimp only at hread
    split at hread
    · -- an operator makes a structural query of it
      obtain ⟨_, -, hread⟩ := exists_of_bind_eq_ok hread
      obtain ⟨_, -, hread⟩ := exists_of_bind_eq_ok hread
      obtain ⟨-, hstructural⟩ := Prod.mk.inj (Except.ok.inj hread)
      exact absurd (hstructural.trans hexpr) (by simp)
    · obtain ⟨-, hsame⟩ := Prod.mk.inj (Except.ok.inj hread)
      exact ⟨rest, by rw [hselector, hsame, hexpr]⟩

/-- A query does not go on with anything but an operator or the brace. -/
theorem not_goesOn_of_head {s rest : List Char} {c : Char}
    (hs : s.dropWhile isMultispace = c :: rest) (hc : c ∉ ['&', '|', '}']) : ¬ GoesOn F64 s := by
  rintro ⟨rest', more, rest'', hmore, hend, -⟩
  simp only [List.mem_cons, List.not_mem_nil, or_false, not_or] at hc
  obtain ⟨hand, hor, hbrace⟩ := hc
  have hspace : multispace0 s = .ok (c :: rest, s.takeWhile isMultispace) :=
    hs ▸ takeWhile0_eq _ s
  obtain ⟨e, he⟩ : IsError (parseLogicalOp (c :: rest)) := by
    refine isError_map (isError_alt (by simp) fun p hp => ?_)
    simp only [List.mem_cons, List.not_mem_nil, or_false] at hp
    obtain rfl | rfl := hp
    · exact isError_tag (by simp [Ne.symm hand])
    · exact isError_tag (by simp [Ne.symm hor])
  rw [parseMoreConditions, hspace] at hmore
  simp only [bind, Except.bind, he] at hmore
  obtain ⟨rfl, -⟩ := Prod.mk.inj (Except.ok.inj hmore)
  exact hbrace (List.cons.inj (hs.symm.trans hend)).1

/-! ### A condition among others -/

/-- The conditions before one of them. -/
def beforeText (asked : List Asked) : List Char :=
  asked.flatMap fun a => a.text.toList ++ " && ".toList

/-- The selector of a condition, with some that are asked for before it. -/
def selectorAfter (before : List Asked) (condition : SpanCondition F64)
    (more : List (LogicalOp × SpanCondition F64)) : SpanSelector F64 :=
  match before with
  | [] => selectorOf condition more
  | a :: before =>
    selectorOf a.condition (before.map (fun a => (.and, a.condition)) ++ (.and, condition) :: more)

omit [Combinators Char] [Alphanumeric] [FloatOps F64] in
@[simp]
theorem conditions_selectorAfter (before : List Asked) (condition : SpanCondition F64)
    (more : List (LogicalOp × SpanCondition F64)) :
    (selectorAfter before condition more).conditions =
      before.map Asked.condition ++ condition :: more.map Prod.snd := by
  cases before with
  | nil => rfl
  | cons a before => simp [selectorAfter, selectorOf, Function.comp_def]

omit [Combinators Char] [Alphanumeric] [FloatOps F64] in
theorem isMultispace_head_beforeText (before : List Asked) {s : List Char}
    (h : ∀ c ∈ s.head?, isMultispace c = false) :
    ∀ c ∈ (beforeText before ++ s).head?, isMultispace c = false := by
  cases before with
  | nil => exact h
  | cons a before =>
    rw [beforeText, List.flatMap_cons, List.append_assoc, List.append_assoc]
    exact isMultispace_head_text a _

/-- A turn, at what is written before a condition. -/
theorem parseMoreConditions_and {s : List Char} (hs : ∀ c ∈ s.head?, isMultispace c = false)
    (n : ℕ) :
    parseMoreConditions F64 (n + 1) (" && ".toList ++ s) =
      match (parseCondition s : Except (Err Char) (List Char × SpanCondition F64)) with
      | .ok (rest, condition) =>
        (parseMoreConditions F64 n rest).map fun r => (r.1, (.and, condition) :: r.2)
      | .error .stuck => .error .stuck
      | .error _ => .error (.failure ⟨s, .tag⟩) := by
  have hspace : multispace0 (" && ".toList ++ s) = .ok ('&' :: '&' :: ' ' :: s, [' ']) :=
    multispace0_space_cons (by decide) _
  have hop : parseLogicalOp ('&' :: '&' :: ' ' :: s) = .ok (' ' :: s, .and) :=
    map_of_ok (alt_of_ok (tag_append ['&', '&'] _))
  have hspace' : multispace0 (' ' :: s) = .ok (s, [' ']) :=
    multispace0_space hs
  rw [parseMoreConditions, hspace]
  simp only [bind, Except.bind, hop, hspace']
  cases (parseCondition s : Except (Err Char) (List Char × SpanCondition F64)) with
  | error e => cases e <;> rfl
  | ok r => rfl

omit [Combinators Char] [Alphanumeric] [FloatOps F64] in
theorem map_snd_eq_ok_iff {ε σ α β : Type} {r : Except ε (σ × α)} {f : α → β} {rest : σ} {b : β} :
    (r.map fun p => (p.1, f p.2)) = .ok (rest, b) ↔ ∃ a, r = .ok (rest, a) ∧ b = f a := by
  cases r with
  | error e => simp [Except.map]
  | ok p =>
    simp only [Except.map, Except.ok.injEq, Prod.ext_iff]
    constructor
    · rintro ⟨rfl, rfl⟩
      exact ⟨p.2, ⟨rfl, rfl⟩, rfl⟩
    · rintro ⟨a, ⟨rfl, rfl⟩, rfl⟩
      exact ⟨rfl, rfl⟩

/-- **The turns over the conditions before one** are taken, and then the turn of that one. -/
theorem parseMoreConditions_beforeText (before : List Asked) {s rest : List Char}
    (hs : ∀ c ∈ s.head?, isMultispace c = false) {n : ℕ}
    (hn : (" && ".toList ++ (beforeText before ++ s)).length < n)
    {more : List (LogicalOp × SpanCondition F64)} :
    parseMoreConditions F64 n (" && ".toList ++ (beforeText before ++ s)) = .ok (rest, more) ↔
      ∃ rest' condition more', parseCondition s = .ok (rest', condition) ∧
        parseMoreConditions F64 (rest'.length + 1) rest' = .ok (rest, more') ∧
        more = before.map (fun a => (.and, a.condition)) ++ (.and, condition) :: more' := by
  have hsep : " && ".toList.length = 4 := by decide
  induction before generalizing n more with
  | nil =>
    obtain ⟨n, rfl⟩ := Nat.exists_eq_succ_of_ne_zero (Nat.ne_of_gt (Nat.zero_lt_of_lt hn))
    rw [beforeText, List.flatMap_nil, List.nil_append] at hn ⊢
    rw [parseMoreConditions_and hs]
    cases hcondition : (parseCondition s : Except (Err Char) (List Char × SpanCondition F64)) with
    | error e => cases e <;> simp
    | ok r =>
      have hlength := (ends_parseCondition _ _ _ hcondition).length_le
      rw [List.length_append] at hn
      dsimp only
      rw [parseMoreConditions_eq (show r.1.length < n by omega), map_snd_eq_ok_iff]
      constructor
      · rintro ⟨more', hmore, rfl⟩
        exact ⟨r.1, r.2, more', rfl, hmore, rfl⟩
      · rintro ⟨rest', condition, more', heq, hmore, rfl⟩
        obtain rfl := Except.ok.inj heq
        exact ⟨more', hmore, rfl⟩
  | cons a before ih =>
    obtain ⟨n, rfl⟩ := Nat.exists_eq_succ_of_ne_zero (Nat.ne_of_gt (Nat.zero_lt_of_lt hn))
    have htext : beforeText (a :: before) ++ s =
        a.text.toList ++ (" && ".toList ++ (beforeText before ++ s)) := by
      simp [beforeText]
    rw [htext, List.length_append, List.length_append] at hn
    rw [parseMoreConditions_and (isMultispace_head_beforeText (a :: before) hs), htext,
      parseCondition_text]
    dsimp only
    rw [map_snd_eq_ok_iff]
    simp only [ih (n := n) (by omega)]
    constructor
    · rintro ⟨_, ⟨rest', condition, more', hcondition, hmore, rfl⟩, rfl⟩
      exact ⟨rest', condition, more', hcondition, hmore, rfl⟩
    · rintro ⟨rest', condition, more', hcondition, hmore, rfl⟩
      exact ⟨_, ⟨rest', condition, more', hcondition, hmore, rfl⟩, rfl⟩

theorem parseSpanSelector_eq_ok_iff {s rest : List Char}
    (hs : ∀ c ∈ s.head?, isMultispace c = false) {lhs : TraceQLExpr F64} :
    parseSpanSelector ('{' :: ' ' :: s) = .ok (rest, lhs) ↔
      ∃ rest' selector, parseConditions s = .ok (rest', selector) ∧
        rest'.dropWhile isMultispace = '}' :: rest ∧ lhs = .spanSelector selector := by
  have hopen : isMultispace '{' = false := by decide
  have hspace : multispace0 (' ' :: s) = .ok (s, [' ']) :=
    multispace0_space hs
  have hspace' : ∀ s : List Char, multispace0 s =
      .ok (s.dropWhile isMultispace, s.takeWhile isMultispace) := fun s => takeWhile0_eq _ s
  rw [parseSpanSelector]
  simp only [bind, Except.bind, multispace0_cons hopen, char_cons, hspace]
  cases (parseConditions s : Except (Err Char) (List Char × SpanSelector F64)) with
  | error e => simp
  | ok r =>
    obtain ⟨rest', selector⟩ := r
    simp only [hspace', Except.ok.injEq, Prod.mk.injEq]
    by_cases hclose : '}' ∈ (rest'.dropWhile isMultispace).head?
    · obtain ⟨rest'', hrest⟩ : ∃ rest'', rest'.dropWhile isMultispace = '}' :: rest'' :=
        ⟨_, List.eq_cons_of_mem_head? hclose⟩
      rw [hrest, char_cons]
      constructor
      · intro h
        obtain ⟨rfl, rfl⟩ := Prod.mk.inj (Except.ok.inj h)
        exact ⟨rest', selector, ⟨rfl, rfl⟩, hrest, rfl⟩
      · rintro ⟨_, _, ⟨rfl, rfl⟩, hend, rfl⟩
        obtain rfl := (List.cons.inj (hrest.symm.trans hend)).2
        rfl
    · rw [char_of_notMem_head hclose]
      refine iff_of_false (by simp) ?_
      rintro ⟨_, _, ⟨rfl, rfl⟩, hend, -⟩
      exact hclose (by simp [hend])

/-- **A selector is read** when the condition after some that are asked for is, and the selector
goes on to its end. -/
theorem parseSpanSelector_beforeText (before : List Asked) {s rest : List Char}
    (hs : ∀ c ∈ s.head?, isMultispace c = false) (hclose : '}' ∉ s.head?)
    {lhs : TraceQLExpr F64} :
    parseSpanSelector ('{' :: ' ' :: (beforeText before ++ s)) = .ok (rest, lhs) ↔
      ∃ rest' condition rest'' more, parseCondition s = .ok (rest', condition) ∧
        parseMoreConditions F64 (rest'.length + 1) rest' = .ok (rest'', more) ∧
        rest''.dropWhile isMultispace = '}' :: rest ∧
        lhs = .spanSelector (selectorAfter before condition more) := by
  rw [parseSpanSelector_eq_ok_iff (isMultispace_head_beforeText before hs)]
  cases before with
  | nil =>
    rw [beforeText, List.flatMap_nil, List.nil_append, parseConditions]
    cases hcondition : (parseCondition s : Except (Err Char) (List Char × SpanCondition F64)) with
    | error e =>
      -- no condition is taken, and what is there is no brace
      refine iff_of_false ?_ (by simp)
      rintro ⟨rest', selector, hread, hend, -⟩
      cases e with
      | stuck => exact absurd hread (by simp)
      | _ =>
        obtain ⟨rfl, -⟩ := Prod.mk.inj (Except.ok.inj hread)
        have hskip : s.dropWhile isMultispace = s := by
          cases s with
          | nil => rfl
          | cons c s => exact List.dropWhile_cons_of_neg (by simp [hs c rfl])
        rw [hskip] at hend
        exact hclose (by simp [hend])
    | ok r =>
      dsimp only
      simp only [map_snd_eq_ok_iff]
      constructor
      · rintro ⟨rest', _, ⟨more, hmore, rfl⟩, hend, rfl⟩
        exact ⟨r.1, r.2, rest', more, rfl, hmore, hend, rfl⟩
      · rintro ⟨_, _, rest', more, heq, hmore, hend, rfl⟩
        obtain rfl := Except.ok.inj heq
        exact ⟨rest', _, ⟨more, hmore, rfl⟩, hend, rfl⟩
  | cons a before =>
    have htext : beforeText (a :: before) ++ s =
        a.text.toList ++ (" && ".toList ++ (beforeText before ++ s)) := by
      simp [beforeText]
    rw [htext, parseConditions, parseCondition_text]
    dsimp only
    simp only [map_snd_eq_ok_iff, parseMoreConditions_beforeText before hs (Nat.lt_succ_self _)]
    constructor
    · rintro ⟨rest', _, ⟨_, ⟨rest, condition, more, hcondition, hmore, rfl⟩, rfl⟩, hend, rfl⟩
      exact ⟨rest, condition, rest', more, hcondition, hmore, hend, rfl⟩
    · rintro ⟨rest, condition, rest', more, hcondition, hmore, hend, rfl⟩
      exact ⟨rest', _, ⟨_, ⟨rest, condition, more, hcondition, hmore, rfl⟩, rfl⟩, hend, rfl⟩

/-- **What a query is read for**: a condition after some that are asked for, and what comes after
it. -/
theorem exists_parseTraceql_beforeText_iff (display : Err Char → String) (before : List Asked)
    {s : List Char} (hs : ∀ c ∈ s.head?, isMultispace c = false) (hclose : '}' ∉ s.head?)
    {query : String} (hquery : query.toList = '{' :: ' ' :: (beforeText before ++ s))
    (htrim : Text.trim query.toList = query.toList) :
    (∃ expr : TraceQLExpr F64, parseTraceql display query = some (.ok expr)) ↔
      ∃ rest, ∃ condition : SpanCondition F64, parseCondition s = .ok (rest, condition) ∧
        GoesOn F64 rest := by
  rw [exists_parseTraceql_iff display htrim, hquery]
  simp only [parseSpanSelector_beforeText before hs hclose]
  constructor
  · rintro ⟨rest, _, ⟨rest', condition, rest'', more, hcondition, hmore, hend, -⟩, hconclude⟩
    exact ⟨rest', condition, hcondition, rest'', more, rest, hmore, hend, hconclude⟩
  · rintro ⟨rest', condition, hcondition, rest'', more, rest, hmore, hend, hconclude⟩
    exact ⟨rest, _, ⟨rest', condition, rest'', more, hcondition, hmore, hend, rfl⟩, hconclude⟩

/-- White space before an operator is skipped. -/
theorem parseMoreConditions_append {spaces : List Char}
    (hspaces : ∀ c ∈ spaces, isMultispace c = true) {s : List Char} {r : List Char × LogicalOp}
    (hop : parseLogicalOp (s.dropWhile isMultispace) = .ok r) (n : ℕ) :
    parseMoreConditions F64 n (spaces ++ s) = parseMoreConditions F64 n s := by
  cases n with
  | zero => rfl
  | succ n =>
    have hspace : ∀ s : List Char, multispace0 s =
        .ok (s.dropWhile isMultispace, s.takeWhile isMultispace) := fun s => takeWhile0_eq _ s
    rw [parseMoreConditions, parseMoreConditions, hspace, hspace,
      List.dropWhile_append_of_pos hspaces]
    simp only [bind, Except.bind, hop]

variable (F64) in
/-- White space and the conditions that are asked for are read up to the brace. -/
theorem parseMoreConditions_append_moreText {spaces : List Char}
    (hspaces : ∀ c ∈ spaces, isMultispace c = true) (after : List Asked) :
    ∃ rest, parseMoreConditions F64 ((spaces ++ moreText after).length + 1)
        (spaces ++ moreText after) = .ok (rest, after.map fun a => (.and, a.condition)) ∧
      rest.dropWhile isMultispace = ['}'] := by
  have hlength := length_le_length_moreText after
  cases after with
  | nil =>
    have hskip : (spaces ++ moreText []).dropWhile isMultispace = ['}'] :=
      List.dropWhile_append_of_pos hspaces
    have hspace : multispace0 (spaces ++ moreText []) =
        .ok (['}'], (spaces ++ moreText []).takeWhile isMultispace) :=
      hskip ▸ takeWhile0_eq _ _
    obtain ⟨e, he⟩ : IsError (parseLogicalOp ['}']) :=
      isError_map (isError_alt (by simp) (by simp [isError_tag]))
    refine ⟨spaces ++ moreText [], ?_, hskip⟩
    rw [parseMoreConditions, hspace]
    simp only [bind, Except.bind, he]
    rfl
  | cons a after =>
    refine ⟨[' ', '}'], ?_, by decide⟩
    have hop : parseLogicalOp ((moreText (a :: after)).dropWhile isMultispace) =
        .ok (' ' :: (a.text.toList ++ moreText after), .and) := by
      have hskip : (moreText (a :: after)).dropWhile isMultispace =
          ['&', '&'] ++ ' ' :: (a.text.toList ++ moreText after) := by
        simp [moreText, isMultispace]
      rw [hskip]
      exact map_of_ok (alt_of_ok (tag_append ['&', '&'] _))
    rw [parseMoreConditions_append hspaces hop]
    refine parseMoreConditions_moreText _ ?_
    rw [List.length_append]
    omega

/-- **A query is read as it is written**: a condition after some that are asked for, white space,
and others that are asked for. -/
theorem parseTraceql_beforeText (display : Err Char → String) (before after : List Asked)
    {s spaces : List Char} {condition : SpanCondition F64}
    (hs : ∀ c ∈ s.head?, isMultispace c = false) (hclose : '}' ∉ s.head?)
    (hspaces : ∀ c ∈ spaces, isMultispace c = true)
    (hcondition : parseCondition s = .ok (spaces ++ moreText after, condition))
    {query : String} (hquery : query.toList = '{' :: ' ' :: (beforeText before ++ s))
    (htrim : Text.trim query.toList = query.toList) :
    parseTraceql display query = some (.ok (.spanSelector
      (selectorAfter before condition (after.map fun a => (.and, a.condition))))) := by
  obtain ⟨rest, hmore, hend⟩ := parseMoreConditions_append_moreText F64 hspaces after
  refine parseTraceql_of_parseSpanSelector display htrim ?_
  rw [hquery]
  exact (parseSpanSelector_beforeText before hs hclose).mpr
    ⟨_, condition, rest, _, hcondition, hmore, hend, rfl⟩

end TraceQL

end Aniani
