import Aniani.Query.LogQL.ParserSafety

/-!
# How queries are spelled

Of the many texts of a query some are laid out in one way: one space between the parts, every text
in quotes and escaped. This grammar of spellings is written down apart from the parser, and the two
agree: a spelling is read as the query it spells, and whatever the parser makes of any input has a
spelling. So the parser gives well-formed queries only. The names of labels and fields are made of
the right characters, a filter on a label is never one on a word that begins another stage, a stage
with a pattern carries the compiled form of that pattern and no other, and a metric query is one of
a pipeline.

## Main definitions

* `SpellsStage`, `Spells`, `SpellsQuery` — a text spells a stage, a pipeline, a query

## Main results

* `parseLogql_of_spells` — a spelling is read as what it spells
* `exists_spells_of_parseLogql` — what is read has a spelling
* `accepted_iff_spelled` — so the queries that are read are those that have a spelling
-/

namespace Aniani

namespace LogQL

open Combinator Combinators

/-! ### Spellings -/

/-- A text in quotes. -/
def quoted (value : String) : List Char := '"' :: ((escapeQuoted value).toList ++ ['"'])

/-- How an operator is written. -/
def MatchOp.sign : MatchOp → List Char
  | .eq => ['=']
  | .neq => ['!', '=']
  | .regex => ['=', '~']
  | .notRegex => ['!', '~']

/-- How a comparison is written. -/
def CompareOp.sign : CompareOp → List Char
  | .gt => ['>']
  | .gte => ['>', '=']
  | .lt => ['<']
  | .lte => ['<', '=']

/-- How a function is written. -/
def MetricFunc.word : MetricFunc → List Char
  | .countOverTime => "count_over_time".toList
  | .rate => "rate".toList
  | .bytesOverTime => "bytes_over_time".toList
  | .sumOverTime => "sum_over_time".toList
  | .avgOverTime => "avg_over_time".toList
  | .minOverTime => "min_over_time".toList
  | .maxOverTime => "max_over_time".toList

/-- A matcher. -/
def LogQLMatcher.spelled (m : LogQLMatcher) : List Char :=
  m.name.toList ++ (m.op.sign ++ quoted m.value)

/-- The matchers after the first one, and the brace. -/
def spelledMore (matchers : List LogQLMatcher) : List Char :=
  (matchers.flatMap fun m => ',' :: ' ' :: m.spelled) ++ ['}']

/-- A selector. -/
def spelledSelector : List LogQLMatcher → List Char
  | [] => ['{', '}']
  | m :: matchers => '{' :: (m.spelled ++ spelledMore matchers)

/-- The words that begin a stage of their own. -/
def stageWords : List String := ["json", "logfmt", "unwrap", "regexp"]

section Grammar

variable [Alphanumeric]

/-- A name of field characters. -/
def IsFieldName (name : String) : Prop :=
  name.toList ≠ [] ∧ ∀ c ∈ name.toList, isFieldChar c = true

/-- A field that a filter can be on. -/
def IsKey (key : String) : Prop := IsFieldName key ∧ key ∉ stageWords

variable {F64 : Type} [FloatOps F64] (regexNew : String → Option Regex)

/-- A text spells a stage. -/
inductive SpellsStage : PipelineStage F64 → List Char → Prop
  | lineContains (pattern : String) :
    SpellsStage (.lineContains pattern) ('|' :: '=' :: ' ' :: quoted pattern)
  | lineNotContains (pattern : String) :
    SpellsStage (.lineNotContains pattern) ('!' :: '=' :: ' ' :: quoted pattern)
  | lineRegex {pattern : String} {re : Regex} (hre : regexNew pattern = some re) :
    SpellsStage (.lineRegex pattern re) ('|' :: '~' :: ' ' :: quoted pattern)
  | lineNotRegex {pattern : String} {re : Regex} (hre : regexNew pattern = some re) :
    SpellsStage (.lineNotRegex pattern re) ('!' :: '~' :: ' ' :: quoted pattern)
  | jsonExtract : SpellsStage .jsonExtract ('|' :: ' ' :: "json".toList)
  | logfmtExtract : SpellsStage .logfmtExtract ('|' :: ' ' :: "logfmt".toList)
  | unwrap {field : String} (hfield : IsFieldName field) :
    SpellsStage (.unwrap field) ('|' :: ' ' :: ("unwrap".toList ++ ' ' :: field.toList))
  | regexpExtract {pattern : String} {re : Regex} (hre : regexNew pattern = some re) :
    SpellsStage (.regexpExtract pattern re)
      ('|' :: ' ' :: ("regexp".toList ++ ' ' :: quoted pattern))
  | labelFilter {key : String} {op : MatchOp} (value : String) (hkey : IsKey key)
    (hop : op = .eq ∨ op = .neq) : SpellsStage (.labelFilter key op value none)
      ('|' :: ' ' :: (key.toList ++ ' ' :: (op.sign ++ quoted value)))
  | regexFilter {key : String} {op : MatchOp} {value : String} {re : Regex} (hkey : IsKey key)
    (hop : op = .regex ∨ op = .notRegex) (hre : regexNew value = some re) :
    SpellsStage (.labelFilter key op value (some re))
      ('|' :: ' ' :: (key.toList ++ ' ' :: (op.sign ++ quoted value)))
  | compareFilter {key : String} {number : List Char} {value : F64} (op : CompareOp)
    (hkey : IsKey key) (hne : number ≠ []) (hnumber : ∀ c ∈ number, isNumberChar c = true)
    (hvalue : FloatOps.parse (String.ofList number) = some value) :
    SpellsStage (.compareFilter key op value)
      ('|' :: ' ' :: (key.toList ++ ' ' :: (op.sign ++ ' ' :: number)))

/-- A text spells a selector, with or without stages. -/
inductive Spells : LogQLExpr F64 → List Char → Prop
  | selector {matchers : List LogQLMatcher} (hnames : ∀ m ∈ matchers, IsLabelName m.name) :
    Spells (.streamSelector matchers) (spelledSelector matchers)
  | pipeline {matchers : List LogQLMatcher} {stages : List (PipelineStage F64)}
    {texts : List (List Char)} (hnames : ∀ m ∈ matchers, IsLabelName m.name) (hne : stages ≠ [])
    (hstages : List.Forall₂ (SpellsStage regexNew) stages texts) :
    Spells (.pipeline (.streamSelector matchers) stages)
      (spelledSelector matchers ++ texts.flatMap fun text => ' ' :: text)

/-- A text spells a query. -/
inductive SpellsQuery : LogQLExpr F64 → List Char → Prop
  | pipeline {expr : LogQLExpr F64} {text : List Char} (h : Spells regexNew expr text) :
    SpellsQuery expr text
  | metricQuery {inner : LogQLExpr F64} {text rangeText : List Char} {range : ℕ}
    (function : MetricFunc) (h : Spells regexNew inner text) (hne : rangeText ≠ [])
    (hrange : ∀ c ∈ rangeText, Alphanumeric.isAlphanumeric c = true)
    (hvalue : parseDuration F64 (String.ofList rangeText) = some (some range)) :
    SpellsQuery (.metricQuery function inner range)
      (function.word ++ '(' :: (text ++ '[' :: (rangeText ++ [']', ')'])))

end Grammar

/-! ### Selectors are read -/

section Read

variable [Combinators Char]

theorem parseMatchOp_sign (op : MatchOp) (rest : List Char) :
    parseMatchOp (op.sign ++ '"' :: rest) = .ok ('"' :: rest, op) := by
  have hfind : ([.regex, .notRegex, .neq, .eq] : List MatchOp).find?
      (fun i => i.sign.isPrefixOf (op.sign ++ '"' :: rest)) = some op := by cases op <;> rfl
  have hread := alt_words MatchOp.sign id hfind
  rw [List.drop_left] at hread
  exact hread

variable [Alphanumeric]

omit [Combinators Char] in
theorem isLabelChar_head_sign (op : MatchOp) (rest : List Char) :
    ∀ c ∈ (op.sign ++ rest).head?, isLabelChar c = false ∧ isMultispace c = false := by
  have hlabel : ∀ c : Char, c.toNat < 128 → c.isAlphanum = false → c ≠ '_' → c ≠ '.' →
      isLabelChar c = false := by
    intro c hascii halnum hunder hdot
    simp [isLabelChar, Alphanumeric.isAlphanumeric_of_ascii hascii, halnum, hunder, hdot]
  intro c hc
  cases op <;> obtain rfl := Option.some.inj hc <;>
    exact ⟨hlabel _ (by decide) (by decide) (by decide) (by decide), by decide⟩

/-- **A matcher that is spelled** is read. -/
theorem parseMatcher_spelled {m : LogQLMatcher} (hname : IsLabelName m.name) {pre : List Char}
    (hpre : ∀ c ∈ pre, isMultispace c = true) (rest : List Char) :
    parseMatcher (pre ++ (m.spelled ++ rest)) = .ok (rest, m) := by
  have htext : m.spelled ++ rest = m.name.toList ++ (m.op.sign ++
      '"' :: ((escapeQuoted m.value).toList ++ '"' :: rest)) := by
    simp [LogQLMatcher.spelled, quoted]
  have hhead := isLabelChar_head_sign m.op ('"' :: ((escapeQuoted m.value).toList ++ '"' :: rest))
  have hspace : multispace0 (pre ++ (m.spelled ++ rest)) = .ok (m.spelled ++ rest, pre) :=
    takeWhile0_append hpre (by rw [htext]; exact isMultispace_head_of_isLabelName hname _)
  have hlabel := takeWhile1_append hname.1 hname.2 fun c hc => (hhead c hc).1
  have hquote : isMultispace '"' = false := by decide
  rw [parseMatcher, hspace, htext]
  have hvalue : cut parseQuotedString ('"' :: ((escapeQuoted m.value).toList ++ '"' :: rest)) =
      .ok (rest, m.value) := by
    have hread := quotedString_escapeQuoted m.value rest
    rw [cut_of_not_error (by rw [parseQuotedString, hread]; exact not_isError_ok _),
      parseQuotedString, hread]
  simp only [bind, Except.bind, hlabel, multispace0_of_head fun c hc => (hhead c hc).2,
    parseMatchOp_sign, multispace0_cons hquote, hvalue, String.ofList_toList]
  rfl

/-- The matchers after the first one are read, up to the brace. -/
theorem separatedMore_spelled {matchers : List LogQLMatcher}
    (hnames : ∀ m ∈ matchers, IsLabelName m.name) (rest : List Char) :
    separatedMore (char ',') parseMatcher (spelledMore matchers ++ rest) =
      .ok ('}' :: rest, matchers) := by
  induction matchers with
  | nil => exact separatedMore_nil (Or.inl (isError_char (by simp [spelledMore])))
  | cons m matchers ih =>
    have htext : spelledMore (m :: matchers) ++ rest =
        ',' :: ([' '] ++ (m.spelled ++ (spelledMore matchers ++ rest))) := by simp [spelledMore]
    have hitem := parseMatcher_spelled (hnames m List.mem_cons_self)
      (List.forall_mem_singleton.mpr (by decide) : ∀ c ∈ [' '], isMultispace c = true)
      (spelledMore matchers ++ rest)
    rw [htext, separatedMore_cons (char_cons ',' _) hitem (by simp; omega),
      ih fun m hm => hnames m (List.mem_cons_of_mem _ hm)]
    rfl

/-- **A selector that is spelled** is read. -/
theorem parseStreamSelector_spelled {F64 : Type} {matchers : List LogQLMatcher}
    (hnames : ∀ m ∈ matchers, IsLabelName m.name) (rest : List Char) :
    parseStreamSelector F64 (spelledSelector matchers ++ rest) =
      .ok (rest, .streamSelector matchers) := by
  have hopen : isMultispace '{' = false := by decide
  have hclose : isMultispace '}' = false := by decide
  cases matchers with
  | nil =>
    have hnone : IsError (parseMatcher ('}' :: rest)) := by
      have hstop : ('}' :: rest).takeWhile isLabelChar = [] := by
        rw [List.takeWhile_cons, if_neg]
        simp [isLabelChar, Alphanumeric.isAlphanumeric_of_ascii (show '}'.toNat < 128 by decide)]
      rw [parseMatcher, multispace0_cons hclose]
      change IsError (Except.bind (takeWhile1 isLabelChar ('}' :: rest)) _)
      exact isError_bind ⟨_, takeWhile1_of_nil hstop⟩ _
    rw [parseStreamSelector]
    simp only [spelledSelector, List.cons_append, List.nil_append, bind, Except.bind,
      multispace0_cons hopen, char_cons, multispace0_cons hclose, separatedList0_nil hnone]
    rfl
  | cons m matchers =>
    have hread := parseMatcher_spelled (hnames m List.mem_cons_self) (List.forall_mem_nil _)
      (spelledMore matchers ++ rest)
    have hspace : multispace0 (m.spelled ++ (spelledMore matchers ++ rest)) =
        .ok (m.spelled ++ (spelledMore matchers ++ rest), []) := by
      rw [LogQLMatcher.spelled, List.append_assoc]
      exact multispace0_of_head (isMultispace_head_of_isLabelName (hnames m List.mem_cons_self) _)
    have htext : spelledSelector (m :: matchers) ++ rest =
        '{' :: (m.spelled ++ (spelledMore matchers ++ rest)) := by simp [spelledSelector]
    have hmore := separatedMore_spelled (fun m hm => hnames m (List.mem_cons_of_mem _ hm)) rest
    rw [List.nil_append] at hread
    rw [parseStreamSelector, htext]
    simp only [bind, Except.bind, multispace0_cons hopen, char_cons, hspace,
      separatedList0_cons hread, hmore, Except.map, multispace0_cons hclose]
    rfl

/-! ### Stages are read -/

variable {F64 : Type} [FloatOps F64] {regexNew : String → Option Regex}

/-- What may follow a stage: the end, a space or the bracket of a range. -/
def Stops (rest : List Char) : Prop := ∀ c ∈ rest.head?, c = ' ' ∨ c = '['

omit [Combinators Char] in
theorem Stops.isFieldChar {rest : List Char} (h : Stops rest) :
    ∀ c ∈ rest.head?, isFieldChar c = false := by
  have hascii : ∀ c : Char, c.toNat < 128 → c.isAlphanum = false → c ≠ '_' →
      LogQL.isFieldChar c = false := by
    intro c hc halnum hunder
    simp [LogQL.isFieldChar, Alphanumeric.isAlphanumeric_of_ascii hc, halnum, hunder]
  intro c hc
  obtain rfl | rfl := h c hc <;> exact hascii _ (by decide) (by decide) (by decide)

omit [Combinators Char] [Alphanumeric] in
theorem Stops.isNumberChar {rest : List Char} (h : Stops rest) :
    ∀ c ∈ rest.head?, isNumberChar c = false := by
  intro c hc
  obtain rfl | rfl := h c hc <;> decide

omit [Alphanumeric] in
/-- A line filter that is spelled is read. -/
theorem parseLineFilter_spelled (op : List Char) (pattern : String) (rest : List Char) :
    parseLineFilter op (op ++ ' ' :: (quoted pattern ++ rest)) = .ok (rest, pattern) := by
  have hquote : isMultispace '"' = false := by decide
  rw [parseLineFilter, quoted]
  simp only [bind, Except.bind, tag_append, List.cons_append, List.append_assoc, List.nil_append,
    multispace0_space_cons hquote, parseQuotedString, quotedString_escapeQuoted]

/-- **Where a word begins a name**, it is a keyword only when it is the name. -/
theorem keyword_append {word name rest : List Char}
    (hword : ∀ c ∈ word, isFieldChar c = true) (hname : ∀ c ∈ name, isFieldChar c = true)
    (hrest : ∀ c ∈ rest.head?, isFieldChar c = false) :
    keyword word (name ++ rest) = if word = name then some rest else none := by
  have hrun : (name ++ rest).takeWhile isFieldChar = name := by
    rw [List.takeWhile_append_of_pos hname]
    cases rest with
    | nil => rw [List.takeWhile_nil, List.append_nil]
    | cons c rest => rw [List.takeWhile_cons_of_neg (by simp [hrest c rfl]), List.append_nil]
  by_cases hpre : word <+: name ++ rest
  · obtain ⟨after, hafter⟩ := hpre
    rw [← hafter, keyword, tag_append]
    dsimp only
    rw [← hafter, List.takeWhile_append_of_pos hword] at hrun
    by_cases hstop : isKeywordBoundary after = true
    · have hnil : after.takeWhile isFieldChar = [] := by
        cases after with
        | nil => rfl
        | cons c after =>
          refine List.takeWhile_cons_of_neg ?_
          simpa [isKeywordBoundary] using hstop
      rw [hnil, List.append_nil] at hrun
      rw [if_pos hstop, if_pos hrun]
      rw [hrun] at hafter
      exact congrArg some (List.append_cancel_left hafter)
    · rw [if_neg hstop, if_neg]
      rintro rfl
      obtain rfl := List.append_cancel_left hafter
      refine hstop ?_
      cases after with
      | nil => rfl
      | cons c after => simp [isKeywordBoundary, hrest c rfl]
  · rw [keyword, tag_of_not_prefix hpre, if_neg]
    rintro rfl
    exact hpre (List.prefix_append _ _)

/-- After a bar and a space no line filter is tried with success. -/
theorem parsePipelineStage_bar (s : List Char) :
    parsePipelineStage regexNew ('|' :: ' ' :: s) =
      (parseJsonOrLabelFilter regexNew ('|' :: ' ' :: s) : IResult Char (PipelineStage F64)) := by
  have hfilter : ∀ op ∈ [['|', '='], ['!', '='], ['|', '~'], ['!', '~']],
      IsError (parseLineFilter op ('|' :: ' ' :: s)) := by
    intro op hop
    simp only [List.mem_cons, List.not_mem_nil, or_false] at hop
    obtain rfl | rfl | rfl | rfl := hop <;> exact isError_parseLineFilter (by simp)
  rw [parsePipelineStage, alt_of_error (isError_bind (hfilter _ (by simp)) _),
    alt_of_error (isError_bind (hfilter _ (by simp)) _),
    alt_of_error (isError_bind (hfilter _ (by simp)) _),
    alt_of_error (isError_bind (hfilter _ (by simp)) _), alt_singleton]

omit [Combinators Char] in
theorem isFieldChar_of_mem_stageWords {word : String} (h : word ∈ stageWords) :
    ∀ c ∈ word.toList, isFieldChar c = true := by
  have halnum : ∀ word ∈ stageWords, word.toList.all Char.isAlphanum = true := by decide
  intro c hc
  rw [isFieldChar, isAlphanumeric_of_isAlphanum (List.all_eq_true.mp (halnum word h) c hc)]
  rfl

omit [Combinators Char] in
theorem isMultispace_head_of_isFieldName {name : String} (hname : IsFieldName name)
    (rest : List Char) : ∀ c ∈ (name.toList ++ rest).head?, isMultispace c = false := by
  intro c hc
  cases hlist : name.toList with
  | nil => exact absurd hlist hname.1
  | cons d l =>
    rw [hlist] at hc
    obtain rfl := Option.some.inj hc
    have hd := hname.2 d (hlist ▸ List.mem_cons_self)
    rw [Bool.eq_false_iff]
    intro hspace
    rw [isFieldChar, isAlphanumeric_of_isMultispace hspace, Bool.false_or, beq_iff_eq] at hd
    rw [hd] at hspace
    exact absurd hspace (by decide)

omit [Combinators Char] [Alphanumeric] in
theorem isMultispace_head_of_isNumberChar {number : List Char} (hne : number ≠ [])
    (hnumber : ∀ c ∈ number, isNumberChar c = true) (rest : List Char) :
    ∀ c ∈ (number ++ rest).head?, isMultispace c = false := by
  intro c hc
  cases number with
  | nil => exact absurd rfl hne
  | cons d l =>
    obtain rfl := Option.some.inj hc
    rw [Bool.eq_false_iff]
    intro hspace
    have hmem : d ∈ [' ', '\t', '\r', '\n'] := of_decide_eq_true hspace
    have hd := hnumber d List.mem_cons_self
    revert hd
    simp only [List.mem_cons, List.not_mem_nil, or_false] at hmem
    rcases hmem with rfl | rfl | rfl | rfl <;> decide

/-- What is read after a bar, a space and a name. -/
theorem parseJsonOrLabelFilter_name {name : String} (hname : IsFieldName name) {rest : List Char}
    (hrest : ∀ c ∈ rest.head?, isFieldChar c = false) :
    parseJsonOrLabelFilter regexNew ('|' :: ' ' :: (name.toList ++ rest)) =
      (if "json" = name then .ok (rest, .jsonExtract)
      else if "logfmt" = name then .ok (rest, .logfmtExtract)
      else if "unwrap" = name then do
        let (rest, _) ← multispace0 rest
        let (rest, field) ← takeWhile1 isFieldChar rest
        return (rest, .unwrap (String.ofList field))
      else if "regexp" = name then do
        let (rest, _) ← multispace0 rest
        let (rest, pattern) ← cut parseQuotedString rest
        return (rest, .regexpExtract pattern (← compile regexNew rest pattern))
      else parseLabelFilter regexNew (name.toList ++ rest) :
        Except (Err Char) (List Char × PipelineStage F64)) := by
  have hspace : multispace0 (' ' :: (name.toList ++ rest)) = .ok (name.toList ++ rest, [' ']) :=
    multispace0_space (isMultispace_head_of_isFieldName hname rest)
  have hkeyword : ∀ word ∈ stageWords,
      keyword word.toList (name.toList ++ rest) = if word = name then some rest else none := by
    intro word hword
    rw [keyword_append (isFieldChar_of_mem_stageWords hword) hname.2 hrest]
    simp only [String.toList_inj]
  rw [parseJsonOrLabelFilter, char_cons]
  simp only [bind, Except.bind, hspace, hkeyword "json" (by decide), hkeyword "logfmt" (by decide),
    hkeyword "unwrap" (by decide), hkeyword "regexp" (by decide)]
  by_cases hjson : "json" = name
  · simp only [if_pos hjson]
    rfl
  by_cases hlogfmt : "logfmt" = name
  · simp only [if_neg hjson, if_pos hlogfmt]
    rfl
  by_cases hunwrap : "unwrap" = name
  · simp only [if_neg hjson, if_neg hlogfmt, if_pos hunwrap]
  by_cases hregexp : "regexp" = name
  · simp only [if_neg hjson, if_neg hlogfmt, if_neg hunwrap, if_pos hregexp]
  · simp only [if_neg hjson, if_neg hlogfmt, if_neg hunwrap, if_neg hregexp]

/-- A name that is a key begins a label filter. -/
theorem parsePipelineStage_key {key : String} (hkey : IsKey key) {rest : List Char}
    (hrest : ∀ c ∈ rest.head?, isFieldChar c = false) :
    parsePipelineStage regexNew ('|' :: ' ' :: (key.toList ++ rest)) =
      (parseLabelFilter regexNew (key.toList ++ rest) : IResult Char (PipelineStage F64)) := by
  have hne : ∀ word ∈ stageWords, ¬ word = key := fun word hmem heq => hkey.2 (heq ▸ hmem)
  rw [parsePipelineStage_bar, parseJsonOrLabelFilter_name hkey.1 hrest,
    if_neg (hne "json" (by decide)), if_neg (hne "logfmt" (by decide)),
    if_neg (hne "unwrap" (by decide)), if_neg (hne "regexp" (by decide))]

omit [Alphanumeric] in
/-- A quoted text that is spelled is read, where nothing else is tried. -/
theorem cut_parseQuotedString_quoted (value : String) (rest : List Char) :
    cut parseQuotedString (quoted value ++ rest) = .ok (rest, value) := by
  have hread : parseQuotedString (quoted value ++ rest) = .ok (rest, value) := by
    rw [quoted, List.cons_append, List.append_assoc]
    exact quotedString_escapeQuoted value rest
  rw [cut_of_not_error (hread ▸ not_isError_ok _), hread]

omit [Combinators Char] [Alphanumeric] in
theorem compareOp?_matchSign (op : MatchOp) (s : List Char) : compareOp? (op.sign ++ s) = none := by
  cases op <;> rfl

omit [Combinators Char] [Alphanumeric] in
theorem compareOp?_sign (op : CompareOp) (s : List Char) :
    compareOp? (op.sign ++ ' ' :: s) = some (' ' :: s, op) := by
  cases op <;> rfl

omit [Combinators Char] [Alphanumeric] in
theorem compile_of_some {pattern : String} {re : Regex} (hre : regexNew pattern = some re)
    (input : List Char) : compile regexNew input pattern = .ok re := by
  rw [compile, hre]

/-- What is read of a filter on a label, but for its pattern. -/
theorem parseLabelFilter_spelled {key : String} (hkey : IsKey key) (op : MatchOp) (value : String)
    (rest : List Char) :
    parseLabelFilter regexNew (key.toList ++ ' ' :: (op.sign ++ (quoted value ++ rest))) =
      (if op = .regex ∨ op = .notRegex then do
        let re ← compile regexNew rest value
        return (rest, .labelFilter key op value (some re))
      else .ok (rest, .labelFilter key op value none) :
        Except (Err Char) (List Char × PipelineStage F64)) := by
  have hspaced : Stops (' ' :: (op.sign ++ (quoted value ++ rest))) :=
    fun c hc => .inl (Option.some.inj hc).symm
  have hname := takeWhile1_append hkey.1.1 hkey.1.2 hspaced.isFieldChar
  have hspace : multispace0 (' ' :: (op.sign ++ (quoted value ++ rest))) =
      .ok (op.sign ++ (quoted value ++ rest), [' ']) :=
    multispace0_space fun c hc => (isLabelChar_head_sign op _ c hc).2
  have hquote : multispace0 (quoted value ++ rest) = .ok (quoted value ++ rest, []) :=
    multispace0_cons (by decide) _
  have hop : parseMatchOp (op.sign ++ (quoted value ++ rest)) = .ok (quoted value ++ rest, op) :=
    parseMatchOp_sign op _
  rw [parseLabelFilter]
  simp only [bind, Except.bind, hname, hspace, compareOp?_matchSign, hop, hquote,
    cut_parseQuotedString_quoted, String.ofList_toList]
  by_cases hregex : op = .regex ∨ op = .notRegex
  · rw [if_pos hregex, if_pos hregex]
  · rw [if_neg hregex, if_neg hregex]
    rfl

/-- **A stage that is spelled** is read. -/
theorem parsePipelineStage_of_spells {stage : PipelineStage F64} {text : List Char}
    (h : SpellsStage regexNew stage text) {rest : List Char} (hrest : Stops rest) :
    parsePipelineStage regexNew (text ++ rest) = .ok (rest, stage) := by
  have hspaced : ∀ s : List Char, Stops (' ' :: s) := fun s c hc => .inl (Option.some.inj hc).symm
  have hword : ∀ word ∈ stageWords, IsFieldName word := fun word hmem =>
    ⟨by revert word; decide, isFieldChar_of_mem_stageWords hmem⟩
  have hfilter : ∀ (op : List Char) (pattern : String),
      parseLineFilter op (op ++ ' ' :: (quoted pattern ++ rest)) = .ok (rest, pattern) :=
    fun op pattern => parseLineFilter_spelled op pattern rest
  cases h with
  | lineContains pattern =>
    refine alt_of_ok ?_
    show Except.bind (parseLineFilter ['|', '=']
      (['|', '='] ++ ' ' :: (quoted pattern ++ rest))) _ = _
    rw [hfilter]
    rfl
  | lineNotContains pattern =>
    refine (alt_of_error (isError_bind (isError_parseLineFilter (by simp)) _)).trans (alt_of_ok ?_)
    show Except.bind (parseLineFilter ['!', '=']
      (['!', '='] ++ ' ' :: (quoted pattern ++ rest))) _ = _
    rw [hfilter]
    rfl
  | @lineRegex pattern re hre =>
    refine (alt_of_error (isError_bind (isError_parseLineFilter (by simp)) _)).trans
      ((alt_of_error (isError_bind (isError_parseLineFilter (by simp)) _)).trans (alt_of_ok ?_))
    show Except.bind (parseLineFilter ['|', '~']
      (['|', '~'] ++ ' ' :: (quoted pattern ++ rest))) _ = _
    rw [hfilter]
    show Except.bind (compile regexNew rest pattern) _ = _
    rw [compile_of_some hre]
    rfl
  | @lineNotRegex pattern re hre =>
    refine (alt_of_error (isError_bind (isError_parseLineFilter (by simp)) _)).trans
      ((alt_of_error (isError_bind (isError_parseLineFilter (by simp)) _)).trans
        ((alt_of_error (isError_bind (isError_parseLineFilter (by simp)) _)).trans (alt_of_ok ?_)))
    show Except.bind (parseLineFilter ['!', '~']
      (['!', '~'] ++ ' ' :: (quoted pattern ++ rest))) _ = _
    rw [hfilter]
    show Except.bind (compile regexNew rest pattern) _ = _
    rw [compile_of_some hre]
    rfl
  | jsonExtract =>
    refine (parsePipelineStage_bar _).trans
      ((parseJsonOrLabelFilter_name (hword "json" (by decide)) hrest.isFieldChar).trans ?_)
    rfl
  | logfmtExtract =>
    refine (parsePipelineStage_bar _).trans
      ((parseJsonOrLabelFilter_name (hword "logfmt" (by decide)) hrest.isFieldChar).trans ?_)
    rfl
  | @unwrap field hfield =>
    have hname := takeWhile1_append hfield.1 hfield.2 hrest.isFieldChar
    have hspace : multispace0 (' ' :: (field.toList ++ rest)) = .ok (field.toList ++ rest, [' ']) :=
      multispace0_space (isMultispace_head_of_isFieldName hfield rest)
    have htext : '|' :: ' ' :: ("unwrap".toList ++ ' ' :: field.toList) ++ rest =
        '|' :: ' ' :: ("unwrap".toList ++ ' ' :: (field.toList ++ rest)) := by simp
    rw [htext, parsePipelineStage_bar, parseJsonOrLabelFilter_name (hword "unwrap" (by decide))
      (hspaced _).isFieldChar]
    show Except.bind (multispace0 (' ' :: (field.toList ++ rest))) _ = _
    simp only [hspace, Except.bind, bind, hname, String.ofList_toList]
    rfl
  | @regexpExtract pattern re hre =>
    have hspace : multispace0 (' ' :: (quoted pattern ++ rest)) =
        .ok (quoted pattern ++ rest, [' ']) :=
      multispace0_space_cons (by decide) _
    have htext : '|' :: ' ' :: ("regexp".toList ++ ' ' :: quoted pattern) ++ rest =
        '|' :: ' ' :: ("regexp".toList ++ ' ' :: (quoted pattern ++ rest)) := by simp
    rw [htext, parsePipelineStage_bar, parseJsonOrLabelFilter_name (hword "regexp" (by decide))
      (hspaced _).isFieldChar]
    show Except.bind (multispace0 (' ' :: (quoted pattern ++ rest))) _ = _
    simp only [hspace, Except.bind, bind, cut_parseQuotedString_quoted, compile_of_some hre]
    rfl
  | @labelFilter key op value hkey hop =>
    have htext : '|' :: ' ' :: (key.toList ++ ' ' :: (op.sign ++ quoted value)) ++ rest =
        '|' :: ' ' :: (key.toList ++ ' ' :: (op.sign ++ (quoted value ++ rest))) := by simp
    have hplain : ¬ (op = .regex ∨ op = .notRegex) := by
      rcases hop with rfl | rfl <;> simp
    rw [htext, parsePipelineStage_key hkey (hspaced _).isFieldChar,
      parseLabelFilter_spelled hkey op value rest, if_neg hplain]
  | @regexFilter key op value re hkey hop hre =>
    have htext : '|' :: ' ' :: (key.toList ++ ' ' :: (op.sign ++ quoted value)) ++ rest =
        '|' :: ' ' :: (key.toList ++ ' ' :: (op.sign ++ (quoted value ++ rest))) := by simp
    rw [htext, parsePipelineStage_key hkey (hspaced _).isFieldChar,
      parseLabelFilter_spelled hkey op value rest, if_pos hop, compile_of_some hre]
    rfl
  | @compareFilter key number value op hkey hne hnumber hvalue =>
    have htext : '|' :: ' ' :: (key.toList ++ ' ' :: (op.sign ++ ' ' :: number)) ++ rest =
        '|' :: ' ' :: (key.toList ++ ' ' :: (op.sign ++ ' ' :: (number ++ rest))) := by simp
    have hname := takeWhile1_append hkey.1.1 hkey.1.2
      (hspaced (op.sign ++ ' ' :: (number ++ rest))).isFieldChar
    have hspace : multispace0 (' ' :: (op.sign ++ ' ' :: (number ++ rest))) =
        .ok (op.sign ++ ' ' :: (number ++ rest), [' ']) := by
      cases op <;> exact multispace0_space_cons (by decide) _
    have hnumberSpace : multispace0 (' ' :: (number ++ rest)) = .ok (number ++ rest, [' ']) :=
      multispace0_space (isMultispace_head_of_isNumberChar hne hnumber rest)
    have hdigits := takeWhile1_append hne hnumber hrest.isNumberChar
    have hparse : parseF64 rest number = .ok value := by rw [parseF64, hvalue]
    rw [htext, parsePipelineStage_key hkey (hspaced _).isFieldChar, parseLabelFilter]
    simp only [bind, Except.bind, hname, hspace, compareOp?_sign, hnumberSpace, hdigits, hparse,
      String.ofList_toList]
    rfl

/-! ### Pipelines are read -/

omit [Combinators Char] in
theorem exists_cons_of_spells {stage : PipelineStage F64} {text : List Char}
    (h : SpellsStage regexNew stage text) : ∃ c tail, text = c :: tail ∧ (c = '|' ∨ c = '!') := by
  cases h <;> exact ⟨_, _, rfl, by decide⟩

omit [Combinators Char] in
theorem exists_cons_of_spellsPipeline {expr : LogQLExpr F64} {text : List Char}
    (h : Spells regexNew expr text) : ∃ t, text = '{' :: t := by
  have hselector : ∀ matchers : List LogQLMatcher, ∃ t, spelledSelector matchers = '{' :: t := by
    intro matchers
    cases matchers <;> exact ⟨_, rfl⟩
  cases h with
  | @selector matchers _ => exact hselector matchers
  | @pipeline matchers stages texts _ _ _ =>
    obtain ⟨t, ht⟩ := hselector matchers
    exact ⟨_, congrArg (· ++ _) ht⟩

/-- No stage begins with anything but a bar or a mark. -/
theorem isError_parsePipelineStage {input : List Char} (hbar : '|' ∉ input.head?)
    (hmark : '!' ∉ input.head?) :
    IsError (parsePipelineStage regexNew input : IResult Char (PipelineStage F64)) := by
  have hfilter : ∀ c d : Char, c ∉ input.head? → IsError (parseLineFilter [c, d] input) := by
    intro c d hc
    refine isError_parseLineFilter fun hpre => hc ?_
    obtain ⟨t, rfl⟩ := hpre
    rfl
  refine isError_alt (List.cons_ne_nil _ _) ?_
  intro p hp
  simp only [List.mem_cons, List.not_mem_nil, or_false] at hp
  obtain rfl | rfl | rfl | rfl | rfl := hp
  · exact isError_bind (hfilter '|' '=' hbar) _
  · exact isError_bind (hfilter '!' '=' hmark) _
  · exact isError_bind (hfilter '|' '~' hbar) _
  · exact isError_bind (hfilter '!' '~' hmark) _
  · exact isError_bind (isError_char hbar) _

/-- The end of a pipeline: the end of the input, or the bracket of a range. -/
def Ended (rest : List Char) : Prop := ∀ c ∈ rest.head?, c = '['

omit [Combinators Char] [Alphanumeric] in
theorem Ended.stops {rest : List Char} (h : Ended rest) : Stops rest := fun c hc => .inr (h c hc)

/-- **One turn of the loop.** -/
theorem parseStages_cons_of_spells {stage : PipelineStage F64} {text : List Char}
    (h : SpellsStage regexNew stage text) {pre tail : List Char}
    (hpre : ∀ c ∈ pre, Text.isWhitespace c = true) (htail : Stops tail) (n : ℕ) :
    parseStages regexNew (n + 1) (pre ++ (text ++ tail)) =
      (parseStages regexNew n tail).map fun r => (r.1, stage :: r.2) := by
  have htrim : Text.trimStart (pre ++ (text ++ tail)) = text ++ tail := by
    obtain ⟨c, t, rfl, hc⟩ := exists_cons_of_spells h
    rw [Text.trimStart, List.dropWhile_append_of_pos hpre, List.cons_append,
      List.dropWhile_cons_of_neg]
    rcases hc with rfl | rfl <;> decide
  rw [parseStages, htrim, parsePipelineStage_of_spells h htail]

/-- **The stages that are spelled** are read. -/
theorem parseStages_of_spells {stages : List (PipelineStage F64)} {texts : List (List Char)}
    (h : List.Forall₂ (SpellsStage regexNew) stages texts) {rest : List Char} (hrest : Ended rest)
    {n : ℕ} (hn : texts.length < n) :
    parseStages regexNew n ((texts.flatMap fun text => ' ' :: text) ++ rest) =
      .ok (rest, stages) := by
  induction h generalizing n with
  | nil =>
    obtain ⟨n, rfl⟩ := Nat.exists_eq_succ_of_ne_zero (Nat.ne_of_gt hn)
    have htrim : Text.trimStart rest = rest := by
      cases rest with
      | nil => rfl
      | cons c rest =>
        obtain rfl := hrest c rfl
        exact List.dropWhile_cons_of_neg (by decide)
    have hnone : ∀ c : Char, c ≠ '[' → c ∉ rest.head? := fun c hc hmem => hc (hrest c hmem)
    obtain ⟨e, he⟩ : IsError
        (parsePipelineStage regexNew rest : IResult Char (PipelineStage F64)) :=
      isError_parsePipelineStage (hnone '|' (by decide)) (hnone '!' (by decide))
    rw [List.flatMap_nil, List.nil_append, parseStages, htrim, he]
  | @cons stage text stages texts hstage hmore ih =>
    obtain ⟨n, rfl⟩ := Nat.exists_eq_succ_of_ne_zero (Nat.ne_of_gt (Nat.zero_lt_of_lt hn))
    have hspace : ∀ c ∈ [' '], Text.isWhitespace c = true :=
      List.forall_mem_singleton.mpr (by decide)
    have htext : ((text :: texts).flatMap fun text => ' ' :: text) ++ rest =
        [' '] ++ (text ++ ((texts.flatMap fun text => ' ' :: text) ++ rest)) := by simp
    have htail : Stops ((texts.flatMap fun text => ' ' :: text) ++ rest) := by
      cases texts with
      | nil => exact hrest.stops
      | cons text' texts => exact fun c hc => .inl (Option.some.inj hc).symm
    rw [htext, parseStages_cons_of_spells hstage hspace htail,
      ih (Nat.lt_of_succ_lt_succ hn)]
    rfl

omit [Combinators Char] [Alphanumeric] in
theorem length_le_length_flatMap_space (texts : List (List Char)) :
    texts.length ≤ (texts.flatMap fun text => ' ' :: text).length := by
  induction texts with
  | nil => exact Nat.le_refl 0
  | cons text texts ih =>
    rw [List.flatMap_cons, List.length_append, List.length_cons, List.length_cons]
    omega

/-- **A pipeline that is spelled** is read. -/
theorem parsePipelineOrSelector_of_spells {expr : LogQLExpr F64} {text : List Char}
    (h : Spells regexNew expr text) {rest : List Char} (hrest : Ended rest) :
    parsePipelineOrSelector regexNew (text ++ rest) = .ok (rest, expr) := by
  have hspace : ∀ c ∈ rest.head?, isMultispace c = false := by
    intro c hc
    obtain rfl := hrest c hc
    decide
  cases h with
  | selector hnames =>
    have hnone : List.Forall₂ (SpellsStage regexNew) ([] : List (PipelineStage F64)) [] := .nil
    have hstages := parseStages_of_spells hnone hrest (Nat.succ_pos rest.length)
    rw [List.flatMap_nil, List.nil_append] at hstages
    rw [parsePipelineOrSelector, parseStreamSelector_spelled hnames rest]
    simp only [bind, Except.bind, multispace0_of_head hspace, hstages]
    rfl
  | @pipeline matchers stages texts hnames hne hstages =>
    cases hstages with
    | nil => exact absurd rfl hne
    | @cons stage text stages texts hstage hmore =>
      set tail := (texts.flatMap fun text => ' ' :: text) ++ rest with htail
      have htext :
          (spelledSelector matchers ++ ((text :: texts).flatMap fun text => ' ' :: text)) ++ rest =
            spelledSelector matchers ++ ' ' :: (text ++ tail) := by simp [htail]
      obtain ⟨c, t, hcons, hc⟩ := exists_cons_of_spells hstage
      have hskip : multispace0 (' ' :: (text ++ tail)) = .ok (text ++ tail, [' ']) := by
        rw [hcons]
        rcases hc with rfl | rfl <;> exact multispace0_space_cons (by decide) _
      have hstops : Stops tail := by
        cases texts with
        | nil => exact hrest.stops
        | cons text' texts => exact fun c hc => .inl (Option.some.inj hc).symm
      have hlength : texts.length < (text ++ tail).length := by
        have hspaces := length_le_length_flatMap_space texts
        rw [hcons, htail, List.length_append, List.length_append, List.length_cons]
        omega
      have hread := parseStages_cons_of_spells hstage (List.forall_mem_nil _) hstops
        (text ++ tail).length
      rw [List.nil_append, parseStages_of_spells hmore hrest hlength] at hread
      rw [htext, parsePipelineOrSelector, parseStreamSelector_spelled hnames]
      simp only [bind, Except.bind, hskip, hread]
      rfl

/-! ### Queries are read -/

omit [Alphanumeric] in
theorem parseMetricFunc_word (function : MetricFunc) (rest : List Char) :
    parseMetricFunc (function.word ++ '(' :: rest) = .ok ('(' :: rest, function) := by
  have hfind : ([.countOverTime, .bytesOverTime, .sumOverTime, .avgOverTime, .minOverTime,
      .maxOverTime, .rate] : List MetricFunc).find?
      (fun i => i.word.isPrefixOf (function.word ++ '(' :: rest)) = some function := by
    cases function <;> rfl
  have hread := alt_words MetricFunc.word id hfind
  rw [List.drop_left] at hread
  exact hread

/-- **A range that is spelled** is read. -/
theorem parseRange_spelled {text : List Char} {range : ℕ} (hne : text ≠ [])
    (htext : ∀ c ∈ text, Alphanumeric.isAlphanumeric c = true)
    (hvalue : parseDuration F64 (String.ofList text) = some (some range)) (rest : List Char) :
    parseRange F64 ('[' :: (text ++ ']' :: rest)) = .ok (rest, range) := by
  have hclose : Alphanumeric.isAlphanumeric ']' = false :=
    Alphanumeric.isAlphanumeric_of_ascii (by decide)
  have hread := takeWhile1_append (s := ']' :: rest) hne htext (by simpa using hclose)
  rw [parseRange]
  simp only [bind, Except.bind, char_cons, hread, hvalue]
  rfl

/-- **A metric query that is spelled** is read. -/
theorem parseMetricQuery_spelled {inner : LogQLExpr F64} {text rangeText : List Char} {range : ℕ}
    (function : MetricFunc) (h : Spells regexNew inner text) (hne : rangeText ≠ [])
    (hrange : ∀ c ∈ rangeText, Alphanumeric.isAlphanumeric c = true)
    (hvalue : parseDuration F64 (String.ofList rangeText) = some (some range)) :
    parseMetricQuery regexNew
        (function.word ++ '(' :: (text ++ '[' :: (rangeText ++ [']', ')']))) =
      .ok ([], (.metricQuery function inner range : LogQLExpr F64)) := by
  have hopen : multispace0 (text ++ '[' :: (rangeText ++ [']', ')'])) =
      .ok (text ++ '[' :: (rangeText ++ [']', ')']), []) := by
    obtain ⟨t, rfl⟩ := exists_cons_of_spellsPipeline h
    exact multispace0_cons (by decide) _
  have hended : Ended ('[' :: (rangeText ++ [']', ')'])) := fun c hc => (Option.some.inj hc).symm
  have hbracket : isMultispace '[' = false := by decide
  have hparen : isMultispace ')' = false := by decide
  rw [parseMetricQuery]
  simp only [bind, Except.bind, parseMetricFunc_word, char_cons, hopen,
    parsePipelineOrSelector_of_spells h hended, multispace0_cons hbracket,
    parseRange_spelled hne hrange hvalue, multispace0_cons hparen]
  rfl

/-- A text does not end with white space. -/
def EndsVisibly (text : List Char) : Prop :=
  ∃ front c, text = front ++ [c] ∧ Text.isWhitespace c = false

omit [Combinators Char] [Alphanumeric] in
theorem EndsVisibly.append {text : List Char} (h : EndsVisibly text) (front : List Char) :
    EndsVisibly (front ++ text) := by
  obtain ⟨front', c, rfl, hc⟩ := h
  exact ⟨front ++ front', c, (List.append_assoc _ _ _).symm, hc⟩

omit [Combinators Char] [Alphanumeric] in
theorem EndsVisibly.cons {text : List Char} (h : EndsVisibly text) (c : Char) :
    EndsVisibly (c :: text) := h.append [c]

omit [Combinators Char] [Alphanumeric] in
theorem endsVisibly_quoted (value : String) : EndsVisibly (quoted value) :=
  ⟨'"' :: (escapeQuoted value).toList, '"', rfl, by decide⟩

omit [Combinators Char] [Alphanumeric] in
theorem endsVisibly_of_forall {text : List Char} (hne : text ≠ [])
    (htext : ∀ c ∈ text, Text.isWhitespace c = false) : EndsVisibly text :=
  ⟨text.dropLast, text.getLast hne, (List.dropLast_append_getLast hne).symm,
    htext _ (List.getLast_mem hne)⟩

omit [Combinators Char] [Alphanumeric] in
theorem trim_of_endsVisibly {c : Char} {text : List Char} (hc : Text.isWhitespace c = false)
    (h : EndsVisibly (c :: text)) : Text.trim (c :: text) = c :: text := by
  obtain ⟨front, d, heq, hd⟩ := h
  rw [Text.trim, Text.trimStart, List.dropWhile_cons_of_neg (by simp [hc]), Text.trimEnd,
    List.rdropWhile_eq_self_iff]
  intro hne
  simp [heq, hd]

omit [Combinators Char] [Alphanumeric] in
theorem not_isWhitespace_of_isNumberChar {c : Char} (h : isNumberChar c = true) :
    Text.isWhitespace c = false := by
  rcases Bool.or_eq_true_iff.mp h with hdigit | hsign
  · exact not_isWhitespace_of_isDigit hdigit
  · have hmem : c ∈ ['.', '-', '+'] := of_decide_eq_true hsign
    simp only [List.mem_cons, List.not_mem_nil, or_false] at hmem
    rcases hmem with rfl | rfl | rfl <;> decide

omit [Combinators Char] in
/-- White space is no field character, if it is not alphanumeric. -/
theorem not_isWhitespace_of_isFieldChar
    (hspace : ∀ c, Text.isWhitespace c = true → Alphanumeric.isAlphanumeric c = false) {c : Char}
    (h : isFieldChar c = true) : Text.isWhitespace c = false := by
  rw [Bool.eq_false_iff]
  intro hwhite
  rw [isFieldChar, hspace c hwhite, Bool.false_or, beq_iff_eq] at h
  rw [h] at hwhite
  exact absurd hwhite (by decide)

omit [Combinators Char] in
/-- A stage that is spelled does not end with white space. -/
theorem SpellsStage.endsVisibly
    (hspace : ∀ c, Text.isWhitespace c = true → Alphanumeric.isAlphanumeric c = false)
    {stage : PipelineStage F64} {text : List Char} (h : SpellsStage regexNew stage text) :
    EndsVisibly text := by
  cases h with
  | lineContains pattern => exact (((endsVisibly_quoted pattern).cons _).cons _).cons _
  | lineNotContains pattern => exact (((endsVisibly_quoted pattern).cons _).cons _).cons _
  | @lineRegex pattern _ _ => exact (((endsVisibly_quoted pattern).cons _).cons _).cons _
  | @lineNotRegex pattern _ _ => exact (((endsVisibly_quoted pattern).cons _).cons _).cons _
  | jsonExtract =>
    have hword : EndsVisibly "json".toList := ⟨['j', 's', 'o'], 'n', by decide, by decide⟩
    exact (hword.cons _).cons _
  | logfmtExtract =>
    have hword : EndsVisibly "logfmt".toList :=
      ⟨['l', 'o', 'g', 'f', 'm'], 't', by decide, by decide⟩
    exact (hword.cons _).cons _
  | @unwrap field hfield =>
    have hname : EndsVisibly field.toList := endsVisibly_of_forall hfield.1 fun c hc =>
      not_isWhitespace_of_isFieldChar hspace (hfield.2 c hc)
    exact (((hname.cons _).append _).cons _).cons _
  | @regexpExtract pattern _ _ =>
    exact ((((endsVisibly_quoted pattern).cons _).append _).cons _).cons _
  | @labelFilter key op value _ _ =>
    exact (((((endsVisibly_quoted value).append _).cons _).append _).cons _).cons _
  | @regexFilter key op value _ _ _ _ =>
    exact (((((endsVisibly_quoted value).append _).cons _).append _).cons _).cons _
  | @compareFilter key number value op _ hne hnumber _ =>
    have hdigits : EndsVisibly number := endsVisibly_of_forall hne fun c hc =>
      not_isWhitespace_of_isNumberChar (hnumber c hc)
    exact (((((hdigits.cons _).append _).cons _).append _).cons _).cons _

omit [Combinators Char] in
/-- Nor do some stages, one after another. -/
theorem endsVisibly_flatMap_space
    (hspace : ∀ c, Text.isWhitespace c = true → Alphanumeric.isAlphanumeric c = false)
    {stages : List (PipelineStage F64)} {texts : List (List Char)} (hne : stages ≠ [])
    (hstages : List.Forall₂ (SpellsStage regexNew) stages texts) :
    EndsVisibly (texts.flatMap fun text => ' ' :: text) := by
  induction hstages with
  | nil => exact absurd rfl hne
  | @cons stage text stages texts hstage hmore ih =>
    rw [List.flatMap_cons]
    cases hmore with
    | nil =>
      rw [List.flatMap_nil, List.append_nil]
      exact (hstage.endsVisibly hspace).cons ' '
    | cons hstage' hmore => exact (ih (List.cons_ne_nil _ _)).append _

omit [Combinators Char] in
theorem Spells.endsVisibly
    (hspace : ∀ c, Text.isWhitespace c = true → Alphanumeric.isAlphanumeric c = false)
    {expr : LogQLExpr F64} {text : List Char} (h : Spells regexNew expr text) :
    EndsVisibly text := by
  have hselector : ∀ matchers : List LogQLMatcher, EndsVisibly (spelledSelector matchers) := by
    intro matchers
    have hbrace : EndsVisibly ['}'] := ⟨[], '}', rfl, by decide⟩
    cases matchers with
    | nil => exact hbrace.cons _
    | cons m matchers => exact ((hbrace.append _).append _).cons _
  cases h with
  | @selector matchers _ => exact hselector matchers
  | @pipeline matchers stages texts _ hne hstages =>
    exact (endsVisibly_flatMap_space hspace hne hstages).append _

/-- **A spelling is read as what it spells**, if white space is not alphanumeric. -/
theorem parseLogql_of_spells
    (hspace : ∀ c, Text.isWhitespace c = true → Alphanumeric.isAlphanumeric c = false)
    {expr : LogQLExpr F64} {text : List Char} (h : SpellsQuery regexNew expr text) :
    parseLogql regexNew (String.ofList text) = some (.ok expr) := by
  cases h with
  | pipeline h =>
    obtain ⟨t, rfl⟩ := exists_cons_of_spellsPipeline h
    have htrim := trim_of_endsVisibly (by decide) (h.endsVisibly hspace)
    have hended : Ended [] := fun c hc => by simp at hc
    have hread := parsePipelineOrSelector_of_spells h hended
    obtain ⟨e, he⟩ : IsError
        (parseMetricQuery regexNew ('{' :: t) : IResult Char (LogQLExpr F64)) :=
      isError_parseMetricQuery regexNew t
    rw [List.append_nil] at hread
    rw [parseLogql, String.toList_ofList, htrim, he]
    dsimp only
    rw [hread]
    rfl
  | @metricQuery inner text rangeText range function h hne hrange hvalue =>
    have hvisible : EndsVisibly
        (function.word ++ '(' :: (text ++ '[' :: (rangeText ++ [']', ')']))) := by
      have hparen : EndsVisibly [']', ')'] := ⟨[']'], ')', rfl, by decide⟩
      exact ((((hparen.append _).cons _).append _).cons _).append _
    have htrim : Text.trim (function.word ++ '(' :: (text ++ '[' :: (rangeText ++ [']', ')']))) =
        function.word ++ '(' :: (text ++ '[' :: (rangeText ++ [']', ')'])) := by
      cases function <;> exact trim_of_endsVisibly (by decide) hvisible
    rw [parseLogql, String.toList_ofList, htrim,
      parseMetricQuery_spelled function h hne hrange hvalue]
    rfl

/-! ### What is read has a spelling -/

theorem isLabelName_of_parseMatcher {input rest : List Char} {m : LogQLMatcher}
    (h : parseMatcher input = .ok (rest, m)) : IsLabelName m.name := by
  obtain ⟨_, -, h⟩ := exists_of_bind_eq_ok h
  obtain ⟨⟨_, name⟩, hname, h⟩ := exists_of_bind_eq_ok h
  obtain ⟨_, -, h⟩ := exists_of_bind_eq_ok h
  obtain ⟨_, -, h⟩ := exists_of_bind_eq_ok h
  obtain ⟨_, -, h⟩ := exists_of_bind_eq_ok h
  obtain ⟨_, -, h⟩ := exists_of_bind_eq_ok h
  cases h
  obtain ⟨hne, hchars, -⟩ := takeWhile1_eq_ok hname
  exact ⟨by rwa [String.toList_ofList], by rwa [String.toList_ofList]⟩

omit [FloatOps F64] in
/-- A selector that is read names its labels well. -/
theorem exists_of_parseStreamSelector {input rest : List Char} {expr : LogQLExpr F64}
    (h : parseStreamSelector F64 input = .ok (rest, expr)) :
    ∃ matchers, expr = .streamSelector matchers ∧ ∀ m ∈ matchers, IsLabelName m.name := by
  obtain ⟨_, -, h⟩ := exists_of_bind_eq_ok h
  obtain ⟨_, -, h⟩ := exists_of_bind_eq_ok h
  obtain ⟨_, -, h⟩ := exists_of_bind_eq_ok h
  obtain ⟨⟨_, matchers⟩, hmatchers, h⟩ := exists_of_bind_eq_ok h
  obtain ⟨_, -, h⟩ := exists_of_bind_eq_ok h
  obtain ⟨_, -, h⟩ := exists_of_bind_eq_ok h
  cases h
  have hcomma : ∀ s, Within False s (char ',' s) := within_char ','
  exact ⟨matchers, rfl, forall_mem_separatedList0 hcomma within_parseMatcher
    (fun _ _ _ hread => isLabelName_of_parseMatcher hread) hmatchers⟩

omit [Combinators Char] [Alphanumeric] [FloatOps F64] in
theorem compile_eq_ok {input : List Char} {pattern : String} {re : Regex}
    (h : compile regexNew input pattern = .ok re) : regexNew pattern = some re := by
  rw [compile] at h
  split at h
  · next heq => exact Except.ok.inj h ▸ heq
  · cases h

omit [Combinators Char] [Alphanumeric] in
theorem parseF64_eq_ok {input number : List Char} {value : F64}
    (h : parseF64 input number = .ok value) :
    FloatOps.parse (String.ofList number) = some value := by
  rw [parseF64] at h
  split at h
  · next heq => exact Except.ok.inj h ▸ heq
  · cases h

theorem isFieldName_of_takeWhile1 {input rest name : List Char}
    (h : takeWhile1 isFieldChar input = .ok (rest, name)) : IsFieldName (String.ofList name) := by
  obtain ⟨hne, hchars, -⟩ := takeWhile1_eq_ok h
  exact ⟨by rwa [String.toList_ofList], by rwa [String.toList_ofList]⟩

/-- **Where no keyword is read**, what is read of a name is a key. -/
theorem isKey_of_takeWhile1 {input rest name : List Char}
    (hwords : ∀ word ∈ stageWords, keyword word.toList input = none)
    (h : takeWhile1 isFieldChar input = .ok (rest, name)) : IsKey (String.ofList name) := by
  refine ⟨isFieldName_of_takeWhile1 h, fun hmem => ?_⟩
  obtain ⟨-, hchars, hrest, rfl⟩ := takeWhile1_eq_ok h
  have hnone := hwords _ hmem
  rw [String.toList_ofList, keyword_append hchars hchars hrest, if_pos rfl] at hnone
  cases hnone

/-- A filter that is read has a spelling. -/
theorem exists_spells_of_parseLabelFilter {input rest : List Char} {stage : PipelineStage F64}
    (hwords : ∀ word ∈ stageWords, keyword word.toList input = none)
    (h : parseLabelFilter regexNew input = .ok (rest, stage)) :
    ∃ text, SpellsStage regexNew stage text := by
  obtain ⟨⟨_, key⟩, hread, h⟩ := exists_of_bind_eq_ok h
  have hkey := isKey_of_takeWhile1 hwords hread
  obtain ⟨⟨input', _⟩, -, h⟩ := exists_of_bind_eq_ok h
  dsimp only at h
  cases hcompare : compareOp? input' with
  | some r =>
    rw [hcompare] at h
    obtain ⟨_, -, h⟩ := exists_of_bind_eq_ok h
    obtain ⟨⟨_, number⟩, hnumber, h⟩ := exists_of_bind_eq_ok h
    obtain ⟨value, hvalue, h⟩ := exists_of_bind_eq_ok h
    cases h
    obtain ⟨hne, hdigits, -⟩ := takeWhile1_eq_ok hnumber
    exact ⟨_, .compareFilter r.2 hkey hne hdigits (parseF64_eq_ok hvalue)⟩
  | none =>
    rw [hcompare] at h
    obtain ⟨⟨_, op⟩, -, h⟩ := exists_of_bind_eq_ok h
    obtain ⟨_, -, h⟩ := exists_of_bind_eq_ok h
    obtain ⟨⟨_, value⟩, -, h⟩ := exists_of_bind_eq_ok h
    dsimp only at h
    split at h
    · next hop =>
      obtain ⟨re, hre, h⟩ := exists_of_bind_eq_ok h
      cases h
      exact ⟨_, .regexFilter hkey hop (compile_eq_ok hre)⟩
    · next hop =>
      cases h
      refine ⟨_, .labelFilter value hkey ?_⟩
      cases op <;> simp at hop ⊢

/-- A stage after a bar has a spelling. -/
theorem exists_spells_of_parseJsonOrLabelFilter {input rest : List Char}
    {stage : PipelineStage F64} (h : parseJsonOrLabelFilter regexNew input = .ok (rest, stage)) :
    ∃ text, SpellsStage regexNew stage text := by
  obtain ⟨_, -, h⟩ := exists_of_bind_eq_ok h
  obtain ⟨_, -, h⟩ := exists_of_bind_eq_ok h
  dsimp only at h
  split at h
  · cases h
    exact ⟨_, .jsonExtract⟩
  · cases h
    exact ⟨_, .logfmtExtract⟩
  · obtain ⟨_, -, h⟩ := exists_of_bind_eq_ok h
    obtain ⟨_, hfield, h⟩ := exists_of_bind_eq_ok h
    cases h
    exact ⟨_, .unwrap (isFieldName_of_takeWhile1 hfield)⟩
  · obtain ⟨_, -, h⟩ := exists_of_bind_eq_ok h
    obtain ⟨_, -, h⟩ := exists_of_bind_eq_ok h
    obtain ⟨re, hre, h⟩ := exists_of_bind_eq_ok h
    cases h
    exact ⟨_, .regexpExtract (compile_eq_ok hre)⟩
  · next hjson hlogfmt hunwrap hregexp =>
    refine exists_spells_of_parseLabelFilter (fun word hword => ?_) h
    simp only [stageWords, List.mem_cons, List.not_mem_nil, or_false] at hword
    obtain rfl | rfl | rfl | rfl := hword <;> assumption

/-- **A stage that is read** has a spelling. -/
theorem exists_spells_of_parsePipelineStage {input rest : List Char} {stage : PipelineStage F64}
    (h : parsePipelineStage regexNew input = .ok (rest, stage)) :
    ∃ text, SpellsStage regexNew stage text := by
  obtain ⟨p, hp, heq⟩ := exists_alt_eq (List.cons_ne_nil _ _) input
  rw [parsePipelineStage, heq] at h
  simp only [List.mem_cons, List.not_mem_nil, or_false] at hp
  obtain rfl | rfl | rfl | rfl | rfl := hp
  · obtain ⟨_, -, h⟩ := exists_of_bind_eq_ok h
    cases h
    exact ⟨_, .lineContains _⟩
  · obtain ⟨_, -, h⟩ := exists_of_bind_eq_ok h
    cases h
    exact ⟨_, .lineNotContains _⟩
  · obtain ⟨_, -, h⟩ := exists_of_bind_eq_ok h
    obtain ⟨re, hre, h⟩ := exists_of_bind_eq_ok h
    cases h
    exact ⟨_, .lineRegex (compile_eq_ok hre)⟩
  · obtain ⟨_, -, h⟩ := exists_of_bind_eq_ok h
    obtain ⟨re, hre, h⟩ := exists_of_bind_eq_ok h
    cases h
    exact ⟨_, .lineNotRegex (compile_eq_ok hre)⟩
  · exact exists_spells_of_parseJsonOrLabelFilter h

/-- So do all stages that the loop reads. -/
theorem exists_spells_of_parseStages {n : ℕ} {input rest : List Char}
    {stages : List (PipelineStage F64)} (h : parseStages regexNew n input = .ok (rest, stages)) :
    ∃ texts, List.Forall₂ (SpellsStage regexNew) stages texts := by
  induction n generalizing input rest stages with
  | zero => cases h
  | succ n ih =>
    rw [parseStages] at h
    split at h
    · next input' stage hstage =>
      cases hmore : (parseStages regexNew n input' :
          IResult Char (List (PipelineStage F64))) with
      | error e =>
        rw [hmore] at h
        cases h
      | ok r =>
        rw [hmore] at h
        cases h
        obtain ⟨text, htext⟩ := exists_spells_of_parsePipelineStage hstage
        obtain ⟨texts, htexts⟩ := ih hmore
        exact ⟨text :: texts, .cons htext htexts⟩
    · cases h
      exact ⟨[], .nil⟩
    · cases h

/-- **A pipeline that is read** has a spelling. -/
theorem exists_spells_of_parsePipelineOrSelector {input rest : List Char} {expr : LogQLExpr F64}
    (h : parsePipelineOrSelector regexNew input = .ok (rest, expr)) :
    ∃ text, Spells regexNew expr text := by
  obtain ⟨_, hselector, h⟩ := exists_of_bind_eq_ok h
  obtain ⟨_, -, h⟩ := exists_of_bind_eq_ok h
  obtain ⟨⟨_, stages⟩, hstages, h⟩ := exists_of_bind_eq_ok h
  obtain ⟨matchers, hexpr, hnames⟩ := exists_of_parseStreamSelector hselector
  obtain ⟨texts, htexts⟩ := exists_spells_of_parseStages hstages
  dsimp only at h
  split at h
  · cases h
    rw [hexpr]
    exact ⟨_, .selector hnames⟩
  · next hne =>
    cases h
    rw [hexpr]
    exact ⟨_, .pipeline hnames (by simpa using hne) htexts⟩

/-- A range that is read is one that was written. -/
theorem exists_of_parseRange {input rest : List Char} {range : ℕ}
    (h : parseRange F64 input = .ok (rest, range)) :
    ∃ text, text ≠ [] ∧ (∀ c ∈ text, Alphanumeric.isAlphanumeric c = true) ∧
      parseDuration F64 (String.ofList text) = some (some range) := by
  obtain ⟨_, -, h⟩ := exists_of_bind_eq_ok h
  obtain ⟨⟨_, text⟩, htext, h⟩ := exists_of_bind_eq_ok h
  obtain ⟨_, -, h⟩ := exists_of_bind_eq_ok h
  obtain ⟨hne, hchars, -⟩ := takeWhile1_eq_ok htext
  dsimp only at h
  split at h
  · cases h
  · cases h
  · next hvalue =>
    cases h
    exact ⟨text, hne, hchars, hvalue⟩

/-- **A metric query that is read** has a spelling. -/
theorem exists_spells_of_parseMetricQuery {input rest : List Char} {expr : LogQLExpr F64}
    (h : parseMetricQuery regexNew input = .ok (rest, expr)) :
    ∃ text, SpellsQuery regexNew expr text := by
  obtain ⟨⟨_, function⟩, -, h⟩ := exists_of_bind_eq_ok h
  obtain ⟨_, -, h⟩ := exists_of_bind_eq_ok h
  obtain ⟨_, -, h⟩ := exists_of_bind_eq_ok h
  obtain ⟨⟨_, inner⟩, hinner, h⟩ := exists_of_bind_eq_ok h
  obtain ⟨_, -, h⟩ := exists_of_bind_eq_ok h
  obtain ⟨⟨_, range⟩, hrange, h⟩ := exists_of_bind_eq_ok h
  obtain ⟨_, -, h⟩ := exists_of_bind_eq_ok h
  obtain ⟨_, -, h⟩ := exists_of_bind_eq_ok h
  cases h
  obtain ⟨text, htext⟩ := exists_spells_of_parsePipelineOrSelector hinner
  obtain ⟨rangeText, hne, hchars, hvalue⟩ := exists_of_parseRange hrange
  exact ⟨_, .metricQuery function htext hne hchars hvalue⟩

omit [Combinators Char] [Alphanumeric] [FloatOps F64] in
theorem finishParse_eq_ok {leadingWs : ℕ} {trimmed remaining : List Char}
    {expr expr' : LogQLExpr F64} (h : finishParse leadingWs trimmed remaining expr = .ok expr') :
    expr = expr' := by
  rw [finishParse] at h
  split at h
  · exact Except.ok.inj h
  · cases h

/-- **What is read has a spelling**, whatever text it was read from. -/
theorem exists_spells_of_parseLogql {query : String} {expr : LogQLExpr F64}
    (h : parseLogql regexNew query = some (.ok expr)) : ∃ text, SpellsQuery regexNew expr text := by
  unfold parseLogql at h
  dsimp only at h
  split at h
  · next heq =>
    rw [← finishParse_eq_ok (Option.some.inj h)]
    exact exists_spells_of_parseMetricQuery heq
  · cases h
  · split at h
    · next heq =>
      rw [← finishParse_eq_ok (Option.some.inj h)]
      obtain ⟨text, htext⟩ := exists_spells_of_parsePipelineOrSelector heq
      exact ⟨text, .pipeline htext⟩
    · obtain ⟨_, -, he⟩ := Option.map_eq_some_iff.mp h
      cases he

/-- **The parser reads the queries of the grammar, and no others**: a query is read of some text
just when it has a spelling, and any spelling of it is read as it. White space is not alphanumeric.
-/
theorem accepted_iff_spelled
    (hspace : ∀ c, Text.isWhitespace c = true → Alphanumeric.isAlphanumeric c = false)
    (expr : LogQLExpr F64) :
    ((∃ query, parseLogql regexNew query = some (.ok expr)) ↔
      ∃ text, SpellsQuery regexNew expr text) ∧
    ∀ text, SpellsQuery regexNew expr text →
      parseLogql regexNew (String.ofList text) = some (.ok expr) := by
  refine ⟨⟨?_, ?_⟩, fun text h => parseLogql_of_spells hspace h⟩
  · rintro ⟨query, h⟩
    exact exists_spells_of_parseLogql h
  · rintro ⟨text, h⟩
    exact ⟨String.ofList text, parseLogql_of_spells hspace h⟩

end Read

/-- A selector with a filter on a label is read. -/
theorem accepted_iff_spelled_oneFilter :
    let _ : Combinators Char := Combinators.ofLists
    let _ : Alphanumeric := Alphanumeric.ascii
    let expr : LogQLExpr ℤ :=
      .pipeline (.streamSelector [⟨"app", .eq, "api"⟩]) [.labelFilter "level" .neq "info" none]
    (∃ query, parseLogql (fun _ => none) query = some (.ok expr)) ∧
      parseLogql (fun _ => none)
        (String.ofList "\x7bapp=\"api\"\x7d | level !=\"info\"".toList) = some (.ok expr) := by
  intro _ _ expr
  have hspace : ∀ c, Text.isWhitespace c = true → Alphanumeric.isAlphanumeric c = false := by
    intro c hc
    rw [Bool.eq_false_iff]
    intro halnum
    have hascii := toNat_lt_of_isAlphanum halnum
    have htable : ∀ n < 128, Text.isWhitespace (Char.ofNat n) = true →
        (Char.ofNat n).isAlphanum = false := by decide +kernel
    have hnone := htable c.toNat hascii (by rwa [Char.ofNat_toNat])
    rw [Char.ofNat_toNat] at hnone
    exact absurd (halnum.symm.trans hnone) (by simp)
  have hlevel : ∀ c ∈ "level".toList, c.isAlphanum = true := List.all_eq_true.mp (by decide)
  have hkey : IsKey "level" :=
    ⟨⟨by decide, fun c hc => by rw [isFieldChar, isAlphanumeric_of_isAlphanum (hlevel c hc)]; rfl⟩,
      by decide⟩
  have hname : IsLabelName "app" := isLabelName_of_isAlphanum (by decide)
    (List.all_eq_true.mp (by decide))
  have hnames : ∀ m ∈ [(⟨"app", .eq, "api"⟩ : LogQLMatcher)], IsLabelName m.name := by
    simpa using hname
  have hstage : SpellsStage (fun _ => none)
      (.labelFilter "level" .neq "info" none : PipelineStage ℤ) _ :=
    .labelFilter "info" hkey (.inr rfl)
  have hspells := SpellsQuery.pipeline (.pipeline hnames (by simp) (.cons hstage .nil))
  obtain ⟨hiff, hread⟩ := accepted_iff_spelled hspace expr
  refine ⟨hiff.mpr ⟨_, hspells⟩, ?_⟩
  refine Eq.trans (congrArg (fun text => parseLogql _ (String.ofList text)) ?_) (hread _ hspells)
  decide +kernel

end LogQL

end Aniani
