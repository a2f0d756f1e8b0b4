import Aniani.Query.LogQL.Parser

/-!
# Positions in a LogQL query

The parser cuts its input at places it has counted in bytes. Every place is the end of some whole
characters, as each parser leaves an end of its input, and so is where an error arose. A stage takes
some input, so the loop over the stages ends. Only the conversion of a range to a duration can panic.

## Main definitions

* `sliceFrom`, `quotedAt`, `compareSlice?` — the slices of the parser, by byte positions
* `RangePanics` — a range whose conversion panics
* `IsBoundary` — a position between characters

## Main results

* `quotedAt_append`, `compareSlice?_eq`, `isSome_classifyParseFailure` — no slice fails
* `takes_parsePipelineStage`, `within_parseStages` — a stage takes some input, and the loop ends
* `parseLogql_safe` — all of it, of every query
-/

namespace Aniani

namespace LogQL

open Combinator Combinators

variable {F64 : Type}

/-! ### Slices -/

/-- The end of a text from a byte position on, nothing where the text is too short or a character is
cut. -/
def sliceFrom : ℕ → List Char → Option (List Char)
  | 0, s => some s
  | _ + 1, [] => none
  | n + 1, c :: s => if c.utf8Size ≤ n + 1 then sliceFrom (n + 1 - c.utf8Size) s else none

/-- The loop of `parse_quoted_string` over `char_indices`, from a byte position of the input on:
nothing where the slice fails. -/
def quotedAt (input : List Char) : ℕ → List Char → Option (Option (List Char × List Char))
  | _, [] => some none
  | i, '"' :: _ => (sliceFrom (i + 1) input).map fun rest => some (rest, [])
  | i, '\\' :: c :: s =>
    (quotedAt input (i + 1 + c.utf8Size) s).map (Option.map fun r => (r.1, unescape c ++ r.2))
  | i, c :: s =>
    if c = '\\' then some none
    else (quotedAt input (i + c.utf8Size) s).map (Option.map fun r => (r.1, c :: r.2))

/-- The comparison operators, those of two characters by a slice. -/
def compareSlice? (s : List Char) : Option (Option (List Char × CompareOp)) :=
  if ['>', '='] <+: s then (sliceFrom 2 s).map fun rest => some (rest, .gte)
  else if ['<', '='] <+: s then (sliceFrom 2 s).map fun rest => some (rest, .lte)
  else
    match s with
    | '>' :: rest => some (some (rest, .gt))
    | '<' :: rest => some (some (rest, .lt))
    | _ => some none

/-- The conversion of a range, a part of the text, panics. -/
def RangePanics (F64 : Type) [FloatOps F64] (whole : List Char) : Prop :=
  ∃ text, text <:+: whole ∧ parseDuration F64 (String.ofList text) = none

/-- A position between characters of a text, or at an end of it. -/
def IsBoundary (s : List Char) (pos : ℕ) : Prop := ∃ front, front <+: s ∧ utf8Len front = pos

theorem utf8Len_cons (c : Char) (s : List Char) : utf8Len (c :: s) = c.utf8Size + utf8Len s :=
  List.sum_cons

theorem utf8Len_append (s t : List Char) : utf8Len (s ++ t) = utf8Len s + utf8Len t := by
  rw [utf8Len, List.map_append, List.sum_append]
  rfl

theorem exists_utf8Size_eq_succ (c : Char) : ∃ n, c.utf8Size = n + 1 :=
  Nat.exists_eq_succ_of_ne_zero c.utf8Size_pos.ne'

theorem sliceTo_append (front s : List Char) :
    sliceTo (utf8Len front) (front ++ s) = some front := by
  induction front with
  | nil => cases s <;> rfl
  | cons c front ih =>
    obtain ⟨n, hn⟩ := exists_utf8Size_eq_succ c
    rw [utf8Len_cons, hn, Nat.add_right_comm, List.cons_append, sliceTo, hn,
      if_pos (by omega), show n + utf8Len front + 1 - (n + 1) = utf8Len front by omega, ih]
    rfl

theorem sliceFrom_append (front s : List Char) :
    sliceFrom (utf8Len front) (front ++ s) = some s := by
  induction front with
  | nil => cases s <;> rfl
  | cons c front ih =>
    obtain ⟨n, hn⟩ := exists_utf8Size_eq_succ c
    rw [utf8Len_cons, hn, Nat.add_right_comm, List.cons_append, sliceFrom, hn,
      if_pos (by omega), show n + utf8Len front + 1 - (n + 1) = utf8Len front by omega, ih]

/-- **The slice after a closing quote** does not fail, and is what follows the quote. -/
theorem quotedAt_append (front s : List Char) :
    quotedAt (front ++ s) (utf8Len front) s = some (quotedBody s) := by
  induction s using quotedBody.induct generalizing front with
  | case1 => rfl
  | case2 rest =>
    have hslice := sliceFrom_append (front ++ ['"']) rest
    rw [List.append_assoc, utf8Len_append] at hslice
    rw [quotedAt, show utf8Len front + 1 = utf8Len front + utf8Len ['"'] from rfl]
    exact congrArg (Option.map fun rest => some (rest, [])) hslice
  | case3 c rest ih =>
    have hrest := ih (front ++ ['\\', c])
    rw [List.append_assoc, utf8Len_append] at hrest
    rw [quotedAt, quotedBody, show utf8Len front + 1 + c.utf8Size = utf8Len front + utf8Len ['\\', c]
      from Nat.add_assoc _ _ _]
    exact congrArg (Option.map (Option.map fun r => (r.1, unescape c ++ r.2))) hrest
  | case4 rest hquote hescape =>
    -- a backslash at the end: the quote is not closed
    rw [quotedAt, quotedBody]
    · rfl
    all_goals assumption
  | case5 c rest hquote hescape hslash ih =>
    have hrest := ih (front ++ [c])
    rw [List.append_assoc, utf8Len_append] at hrest
    rw [quotedAt, quotedBody, if_neg hslash, if_neg hslash]
    · exact congrArg (Option.map (Option.map fun r => (r.1, c :: r.2))) hrest
    all_goals assumption

/-- **The slice after an operator** does not fail. -/
theorem compareSlice?_eq (s : List Char) : compareSlice? s = some (compareOp? s) := by
  have hgte (rest : List Char) : sliceFrom 2 ('>' :: '=' :: rest) = some rest :=
    sliceFrom_append ['>', '='] rest
  have hlte (rest : List Char) : sliceFrom 2 ('<' :: '=' :: rest) = some rest :=
    sliceFrom_append ['<', '='] rest
  fun_cases compareOp? s with
  | case1 rest => simp [compareSlice?, hgte]
  | case2 rest => simp [compareSlice?, hlte]
  | case3 rest h =>
    have hnot : ¬ ['='] <+: rest := by
      rintro ⟨t, rfl⟩
      exact h t rfl
    simp [compareSlice?, hnot]
  | case4 rest h =>
    have hnot : ¬ ['='] <+: rest := by
      rintro ⟨t, rfl⟩
      exact h t rfl
    simp [compareSlice?, hnot]
  | case5 s _ _ hgt hlt =>
    cases s with
    | nil => rfl
    | cons c s =>
      have hgt : c ≠ '>' := fun h => hgt s (h ▸ rfl)
      have hlt : c ≠ '<' := fun h => hlt s (h ▸ rfl)
      simp [compareSlice?, hgt.symm, hlt.symm]

/-- A text up to any of its ends, for the message: the slice does not fail. -/
theorem isSome_classifyParseFailure {trimmed rest : List Char} (h : rest <:+ trimmed) :
    (classifyParseFailure trimmed (utf8Len trimmed - utf8Len rest)).isSome = true := by
  obtain ⟨front, rfl⟩ := h
  have hpos : min (utf8Len (front ++ rest) - utf8Len rest) (utf8Len (front ++ rest)) =
      utf8Len front := by
    rw [utf8Len_append]
    omega
  rw [classifyParseFailure]
  simp only [hpos, sliceTo_append, Option.map_some, Option.isSome_some]

/-! ### Every parser leaves an end of its input -/

section Parsers

variable {stuck : Prop} (regexNew : String → Option Regex)

/-- A pattern that is not compiled is an error at the input. -/
theorem within_compile {α : Type} {f : Regex → IResult Char α} {input : List Char}
    (h : ∀ re, Within stuck input (f re)) (pattern : String) :
    Within stuck input (Except.bind (compile regexNew input pattern) f) := by
  rw [compile]
  cases regexNew pattern with
  | none => exact within_failure List.suffix_rfl
  | some re => exact h re

theorem suffix_of_compareOp? {input rest : List Char} {op : CompareOp}
    (h : compareOp? input = some (rest, op)) : rest <:+ input := by
  unfold compareOp? at h
  split at h <;> cases h
  · exact (List.suffix_cons '=' rest).trans (List.suffix_cons '>' _)
  · exact (List.suffix_cons '=' rest).trans (List.suffix_cons '<' _)
  · exact List.suffix_cons '>' rest
  · exact List.suffix_cons '<' rest

/-- A number that is not read is an error at the input. -/
theorem within_parseF64 [FloatOps F64] {α : Type} {f : F64 → IResult Char α} {input : List Char}
    (h : ∀ value, Within stuck input (f value)) (number : List Char) :
    Within stuck input (Except.bind (parseF64 input number) f) := by
  rw [parseF64]
  cases (FloatOps.parse (String.ofList number) : Option F64) with
  | none => exact within_failure List.suffix_rfl
  | some value => exact h value

variable [Combinators Char]

theorem within_parseMatchOp (input : List Char) : Within stuck input (parseMatchOp input) := by
  refine within_alt (List.cons_ne_nil _ _) fun p hp => ?_
  simp only [List.mem_cons, List.not_mem_nil, or_false] at hp
  obtain rfl | rfl | rfl | rfl := hp <;> exact within_map (within_tag _ input) _

variable [Alphanumeric]

theorem within_parseMatcher (input : List Char) : Within stuck input (parseMatcher input) := by
  refine (within_multispace0 input).bind fun rest _ _ => ?_
  refine (within_takeWhile1 _ rest).bind fun rest _ _ => ?_
  refine (within_multispace0 rest).bind fun rest _ _ => ?_
  refine (within_parseMatchOp rest).bind fun rest _ _ => ?_
  refine (within_multispace0 rest).bind fun rest _ _ => ?_
  refine (within_cut (within_quotedString rest)).bind fun rest _ _ => ?_
  exact within_ok List.suffix_rfl _

theorem within_parseStreamSelector (input : List Char) :
    Within stuck input (parseStreamSelector F64 input) := by
  refine (within_multispace0 input).bind fun rest _ _ => ?_
  refine (within_char '{' rest).bind fun rest _ _ => ?_
  refine (within_multispace0 rest).bind fun rest _ _ => ?_
  refine (within_separatedList0 (fun s _ => within_char ',' s) fun s _ =>
    within_parseMatcher s).bind fun rest _ _ => ?_
  refine (within_multispace0 rest).bind fun rest _ _ => ?_
  refine (within_char '}' rest).bind fun rest _ _ => ?_
  exact within_ok List.suffix_rfl _

omit [Alphanumeric] in
theorem takes_parseLineFilter {op : List Char} (hop : op ≠ []) (input : List Char) :
    Takes stuck input (parseLineFilter op input) := by
  refine (takes_tag hop input).bind fun rest _ _ => ?_
  refine (within_multispace0 rest).bind fun rest _ _ => ?_
  exact within_quotedString rest

theorem suffix_of_keyword {word input rest : List Char} (h : keyword word input = some rest) :
    rest <:+ input := by
  rw [keyword] at h
  split at h
  · next heq =>
    split at h
    · exact Option.some.inj h ▸ ends_tag word input _ _ heq
    · cases h
  · cases h

variable [FloatOps F64]

theorem within_parseLabelFilter (input : List Char) :
    Within stuck input (parseLabelFilter regexNew input : IResult Char (PipelineStage F64)) := by
  refine (within_takeWhile1 _ input).bind fun rest _ _ => ?_
  refine (within_multispace0 rest).bind fun rest _ _ => ?_
  dsimp only
  cases hop : compareOp? rest with
  | some r =>
    refine Within.trans ?_ (suffix_of_compareOp? hop)
    refine (within_multispace0 r.1).bind fun rest _ _ => ?_
    refine (within_takeWhile1 _ rest).bind fun rest number _ => ?_
    exact within_parseF64 (fun _ => within_ok List.suffix_rfl _) number
  | none =>
    refine (within_parseMatchOp rest).bind fun rest op _ => ?_
    refine (within_multispace0 rest).bind fun rest _ _ => ?_
    refine (within_cut (within_quotedString rest)).bind fun rest value _ => ?_
    dsimp only
    split
    · exact within_compile regexNew (fun _ => within_ok List.suffix_rfl _) value
    · exact within_ok List.suffix_rfl _

theorem takes_parseJsonOrLabelFilter (input : List Char) :
    Takes stuck input
      (parseJsonOrLabelFilter regexNew input : IResult Char (PipelineStage F64)) := by
  refine (takes_char '|' input).bind fun rest _ _ => ?_
  refine (within_multispace0 rest).bind fun rest _ _ => ?_
  dsimp only
  split
  · next hword => exact within_ok (suffix_of_keyword hword) _
  · next hword => exact within_ok (suffix_of_keyword hword) _
  · next hword =>
    refine Within.trans ?_ (suffix_of_keyword hword)
    refine (within_multispace0 _).bind fun rest _ _ => ?_
    refine (within_takeWhile1 _ rest).bind fun rest _ _ => ?_
    exact within_ok List.suffix_rfl _
  · next hword =>
    refine Within.trans ?_ (suffix_of_keyword hword)
    refine (within_multispace0 _).bind fun rest _ _ => ?_
    refine (within_cut (within_quotedString rest)).bind fun rest pattern _ => ?_
    exact within_compile regexNew (fun _ => within_ok List.suffix_rfl _) pattern
  · exact within_parseLabelFilter regexNew rest

/-- **A stage takes some input**: each alternative begins with an operator. -/
theorem takes_parsePipelineStage (input : List Char) :
    Takes stuck input (parsePipelineStage regexNew input : IResult Char (PipelineStage F64)) := by
  refine takes_alt (List.cons_ne_nil _ _) fun p hp => ?_
  simp only [List.mem_cons, List.not_mem_nil, or_false] at hp
  obtain rfl | rfl | rfl | rfl | rfl := hp
  · refine (takes_parseLineFilter (List.cons_ne_nil _ _) input).bind fun rest _ _ => ?_
    exact within_ok List.suffix_rfl _
  · refine (takes_parseLineFilter (List.cons_ne_nil _ _) input).bind fun rest _ _ => ?_
    exact within_ok List.suffix_rfl _
  · refine (takes_parseLineFilter (List.cons_ne_nil _ _) input).bind fun rest pattern _ => ?_
    exact within_compile regexNew (fun _ => within_ok List.suffix_rfl _) pattern
  · refine (takes_parseLineFilter (List.cons_ne_nil _ _) input).bind fun rest pattern _ => ?_
    exact within_compile regexNew (fun _ => within_ok List.suffix_rfl _) pattern
  · exact takes_parseJsonOrLabelFilter regexNew input

/-- **The loop over the stages ends**, with an end of its input. -/
theorem within_parseStages {n : ℕ} {remaining : List Char} (h : remaining.length < n) :
    Within stuck remaining
      (parseStages regexNew n remaining : IResult Char (List (PipelineStage F64))) := by
  induction n generalizing remaining with
  | zero => exact absurd h (Nat.not_lt_zero _)
  | succ n ih =>
    have htrim : Text.trimStart remaining <:+ remaining := List.dropWhile_suffix _
    have hstage : Takes stuck _ (parsePipelineStage regexNew (Text.trimStart remaining) :
        IResult Char (PipelineStage F64)) := takes_parsePipelineStage regexNew _
    rw [parseStages]
    cases hs : (parsePipelineStage regexNew (Text.trimStart remaining) :
        IResult Char (PipelineStage F64)) with
    | ok r =>
      have hlt := (hstage.lt r.1 r.2 hs).trans_le htrim.length_le
      have hrest := (hstage.ends r.1 r.2 hs).trans htrim
      exact (within_map_cons (ih (hlt.trans_le (Nat.le_of_lt_succ h))) r.2).trans hrest
    | error e =>
      rw [hs] at hstage
      cases e with
      | error e => exact within_ok List.suffix_rfl _
      | failure e => exact hstage.of_error.trans htrim
      | stuck => exact hstage.of_error.trans htrim

theorem within_parsePipelineOrSelector (input : List Char) :
    Within stuck input
      (parsePipelineOrSelector regexNew input : IResult Char (LogQLExpr F64)) := by
  refine (within_parseStreamSelector input).bind fun rest _ _ => ?_
  refine (within_multispace0 rest).bind fun rest _ _ => ?_
  refine (within_parseStages regexNew (Nat.lt_succ_self _)).bind fun rest stages _ => ?_
  dsimp only
  split
  · exact within_ok List.suffix_rfl _
  · exact within_ok List.suffix_rfl _

omit [Alphanumeric] in
theorem within_parseMetricFunc (input : List Char) :
    Within stuck input (parseMetricFunc input) := by
  refine within_alt (List.cons_ne_nil _ _) fun p hp => ?_
  simp only [List.mem_cons, List.not_mem_nil, or_false] at hp
  obtain rfl | rfl | rfl | rfl | rfl | rfl | rfl := hp <;> exact within_map (within_tag _ input) _

/-- The text of a range is a part of the query. -/
theorem within_parseRange {whole input : List Char} (h : input <:+ whole) :
    Within (RangePanics F64 whole) input (parseRange F64 input) := by
  refine (within_char '[' input).bind fun rest _ hrest => ?_
  dsimp only
  by_cases hnil : rest.takeWhile Alphanumeric.isAlphanumeric = []
  · rw [takeWhile1_of_nil hnil]
    exact within_error List.suffix_rfl
  · rw [takeWhile1_eq hnil]
    have htext : rest.takeWhile Alphanumeric.isAlphanumeric <:+: whole :=
      (List.takeWhile_prefix _).isInfix.trans (hrest.trans h).isInfix
    refine Within.trans ?_ (List.dropWhile_suffix Alphanumeric.isAlphanumeric)
    refine (within_char ']' _).bind fun rest' _ _ => ?_
    dsimp only
    split
    · next hpanic => exact within_stuck ⟨_, htext, hpanic⟩
    · exact within_failure List.suffix_rfl
    · exact within_ok List.suffix_rfl _

theorem within_parseMetricQuery (input : List Char) :
    Within (RangePanics F64 input) input
      (parseMetricQuery regexNew input : IResult Char (LogQLExpr F64)) := by
  refine (within_parseMetricFunc input).bind fun rest _ hfunc => ?_
  refine (within_char '(' rest).bind fun rest _ hopen => ?_
  refine (within_multispace0 rest).bind fun rest _ hspace => ?_
  refine (within_parsePipelineOrSelector regexNew rest).bind fun rest _ hinner => ?_
  refine (within_multispace0 rest).bind fun rest _ hspace' => ?_
  have hrest := hspace'.trans (hinner.trans (hspace.trans (hopen.trans hfunc)))
  refine (within_parseRange hrest).bind fun rest _ _ => ?_
  refine (within_multispace0 rest).bind fun rest _ _ => ?_
  refine (within_char ')' rest).bind fun rest _ _ => ?_
  exact within_ok List.suffix_rfl _

end Parsers

/-! ### Positions of errors -/

theorem IsBoundary.le {s : List Char} {pos : ℕ} (h : IsBoundary s pos) : pos ≤ utf8Len s := by
  obtain ⟨front, ⟨rest, rfl⟩, rfl⟩ := h
  rw [utf8Len_append]
  omega

/-- What was trimmed in front counts, and what an end of the trimmed text leaves. -/
theorem isBoundary_of_suffix {input rest : List Char} (h : rest <:+ Text.trim input) :
    IsBoundary input (utf8Len input - utf8Len (Text.trimStart input) +
      (utf8Len (Text.trim input) - utf8Len rest)) := by
  obtain ⟨front, hfront⟩ := h
  obtain ⟨lead, hlead⟩ : Text.trimStart input <:+ input := List.dropWhile_suffix _
  obtain ⟨trail, htrail⟩ : Text.trim input <+: Text.trimStart input := List.rdropWhile_prefix _ _
  refine ⟨lead ++ front, ⟨rest ++ trail, ?_⟩, ?_⟩
  · rw [List.append_assoc, ← List.append_assoc front, hfront, htrail, hlead]
  · have hlen := congrArg utf8Len hlead
    have hlen' := congrArg utf8Len hfront
    rw [utf8Len_append] at hlen hlen'
    rw [utf8Len_append]
    omega

theorem isBoundary_of_finishParse {input remaining : List Char} {expr : LogQLExpr F64}
    {e : LogQLParseError} (h : remaining <:+ Text.trim input)
    (he : finishParse (utf8Len input - utf8Len (Text.trimStart input)) (Text.trim input) remaining
      expr = .error e) : IsBoundary input e.pos := by
  rw [finishParse] at he
  split at he
  · cases he
  · cases he
    exact isBoundary_of_suffix ((List.dropWhile_suffix _).trans h)

/-- The report of an error is made, and its position is a boundary. -/
theorem exists_nomErrToHuman {input : List Char} {err : Err Char}
    (h : Within False (Text.trim input) (.error err : IResult Char (LogQLExpr F64))) :
    ∃ e, nomErrToHuman (Text.trim input) err (utf8Len input - utf8Len (Text.trimStart input)) =
      some e ∧ IsBoundary input e.pos := by
  cases err with
  | error e | failure e =>
    have hsuffix := h.suffix e (by simp)
    obtain ⟨msg, hmsg⟩ := Option.isSome_iff_exists.mp (isSome_classifyParseFailure hsuffix)
    refine ⟨⟨_, msg⟩, ?_, isBoundary_of_suffix hsuffix⟩
    rw [nomErrToHuman, hmsg]
    rfl
  | stuck => exact (h.stuck rfl).elim

variable [Combinators Char] [Alphanumeric] [FloatOps F64] (regexNew : String → Option Regex)

variable (F64) in
/-- What is reported of a query, and when nothing is. -/
theorem parseLogql_spec (input : String) :
    ((parseLogql regexNew input : Option (Except LogQLParseError (LogQLExpr F64))) = none →
      RangePanics F64 (Text.trim input.toList)) ∧
    ∀ e, (parseLogql regexNew input : Option (Except LogQLParseError (LogQLExpr F64))) =
      some (.error e) → IsBoundary input.toList e.pos := by
  have hmetric : Within _ _ (parseMetricQuery regexNew (Text.trim input.toList) :
    IResult Char (LogQLExpr F64)) := within_parseMetricQuery regexNew _
  have hpipeline : Within False _ (parsePipelineOrSelector regexNew (Text.trim input.toList) :
    IResult Char (LogQLExpr F64)) := within_parsePipelineOrSelector regexNew _
  unfold parseLogql
  dsimp only
  split
  · next heq =>
    refine ⟨fun h => (by cases h), fun e he => ?_⟩
    exact isBoundary_of_finishParse (hmetric.ends _ _ heq) (Option.some.inj he)
  · next heq => exact ⟨fun _ => hmetric.stuck heq, fun e he => (by cases he)⟩
  · split
    · next heq =>
      refine ⟨fun h => (by cases h), fun e he => ?_⟩
      exact isBoundary_of_finishParse (hpipeline.ends _ _ heq) (Option.some.inj he)
    · next heq =>
      obtain ⟨e', he', hpos⟩ := exists_nomErrToHuman (heq ▸ hpipeline)
      rw [he']
      refine ⟨fun h => (by cases h), fun e he => ?_⟩
      cases he
      exact hpos

/-- **Every query is parsed without a bad slice.** A stage takes some input and the loop over the
stages ends, what is left after each parser is an end of its input, no slice fails, and the position
of an error is one between characters of the query. -/
theorem parseLogql_safe (input : String) :
    (∀ s, Takes False s (parsePipelineStage regexNew s : IResult Char (PipelineStage F64))) ∧
    (∀ n s, s.length < n →
      Within False s (parseStages regexNew n s : IResult Char (List (PipelineStage F64)))) ∧
    (∀ s, quotedAt s 0 s = some (quotedBody s) ∧ compareSlice? s = some (compareOp? s)) ∧
    Within (RangePanics F64 (Text.trim input.toList)) (Text.trim input.toList)
      (parseMetricQuery regexNew (Text.trim input.toList) : IResult Char (LogQLExpr F64)) ∧
    Within False (Text.trim input.toList)
      (parsePipelineOrSelector regexNew (Text.trim input.toList) : IResult Char (LogQLExpr F64)) ∧
    ((parseLogql regexNew input : Option (Except LogQLParseError (LogQLExpr F64))) = none →
      RangePanics F64 (Text.trim input.toList)) ∧
    ∀ e, (parseLogql regexNew input : Option (Except LogQLParseError (LogQLExpr F64))) =
      some (.error e) → e.pos ≤ utf8Len input.toList ∧ IsBoundary input.toList e.pos := by
  have hspec := parseLogql_spec F64 regexNew input
  refine ⟨takes_parsePipelineStage regexNew, fun n s h => within_parseStages regexNew h,
    fun s => ⟨quotedAt_append [] s, compareSlice?_eq s⟩, within_parseMetricQuery regexNew _,
    within_parsePipelineOrSelector regexNew _, hspec.1, fun e he => ?_⟩
  have hpos := hspec.2 e he
  exact ⟨hpos.le, hpos⟩

end LogQL

end Aniani
