import Aniani.Query.TraceQL.Remainder

/-!
# The conditions of a selector

The parser keeps the conditions of a selector and the operators between them as two flat lists, and
the evaluator walks both by index, once and from left to right, with an early return at `||`. Here
both are written with the two lists as the source has them. The lists that the parser makes fit, so
that no index is out of range, and the walk then finds whether some group of conditions between the
`||`s holds as a whole.

## Main definitions

* `parseConditionVecs` — `parse_conditions` with its two lists
* `TraceStore.spanMatchesConditionsAt` — `span_matches_conditions` with its indexes
* `orOfAnds` — the value of a selector read with `&&` binding tighter than `||`

## Main results

* `TraceQL.fits_of_parseConditionVecs` — the lists of the parser fit
* `TraceStore.spanMatchesConditionsAt_of_fits` — no index is out of range
* `TraceStore.spanMatchesConditions_of_fits` — the value of a selector whose lists fit
* `TraceQL.operands_of_parseTopLevel` — the operands of a structural query
* `TraceQL.spanMatchesConditionsAt_parsed` — the evaluator on what was parsed
-/

namespace Aniani

/-! ### Precedence -/

section Precedence

variable {α : Type}

/-- The groups of `&&` that the `||`s separate. -/
def orGroups : List α → List LogicalOp → List (List α)
  | a :: as, .and :: ops =>
    match orGroups as ops with
    | group :: groups => (a :: group) :: groups
    | [] => [[a]]
  | a :: as, .or :: ops => [a] :: orGroups as ops
  | as, _ => [as]

/-- The value of a selector from that of its conditions: some group holds as a whole. -/
def orOfAnds (holds : α → Bool) (as : List α) (ops : List LogicalOp) : Bool :=
  (orGroups as ops).any fun group => group.all holds

/-- The lists of a selector fit: both are empty, or there is exactly one operator fewer. -/
def Fits (as : List α) (ops : List LogicalOp) : Prop :=
  (as = [] ∧ ops = []) ∨ ops.length + 1 = as.length

theorem Fits.length_eq {a : α} {as : List α} {ops : List LogicalOp} (h : Fits (a :: as) ops) :
    as.length = ops.length := by
  obtain ⟨hnil, -⟩ | hlength := h
  · exact absurd hnil (List.cons_ne_nil a as)
  · simpa using hlength.symm

/-- The first condition is in the first group, whichever it is. -/
theorem exists_orGroups_cons (as : List α) (ops : List LogicalOp) :
    ∃ group groups, ∀ a, orGroups (a :: as) ops = (a :: group) :: groups := by
  cases ops with
  | nil => exact ⟨as, [], fun a => rfl⟩
  | cons op ops =>
    cases op with
    | or => exact ⟨[], orGroups as ops, fun a => rfl⟩
    | and =>
      cases hgroups : orGroups as ops with
      | nil => exact ⟨[], [], fun a => by rw [orGroups, hgroups]⟩
      | cons group groups => exact ⟨group, groups, fun a => by rw [orGroups, hgroups]⟩

/-- The groups of the values are the values of the groups. -/
theorem orGroups_map {β : Type} (f : α → β) (as : List α) (ops : List LogicalOp) :
    orGroups (as.map f) ops = (orGroups as ops).map fun group => group.map f := by
  induction ops generalizing as with
  | nil => cases as <;> rfl
  | cons op ops ih =>
    cases as with
    | nil => rfl
    | cons a as =>
      rw [List.map_cons]
      cases op with
      | or => rw [orGroups, orGroups, ih, List.map_cons, List.map_cons, List.map_nil]
      | and =>
        rw [orGroups, orGroups, ih]
        cases orGroups as ops <;> rfl

theorem orOfAnds_map (holds : α → Bool) (as : List α) (ops : List LogicalOp) :
    orOfAnds id (as.map holds) ops = orOfAnds holds as ops := by
  rw [orOfAnds, orOfAnds, orGroups_map, List.any_map]
  congr 1
  funext group
  simp [List.all_map]

/-! ### The walk -/

/-- The loop of `span_matches_conditions` from an index on, with the result of the group so far;
nothing when an index is out of range. -/
def walkFrom (resultAt : ℕ → Option Bool) : ℕ → Bool → List LogicalOp → Option Bool
  | _, current, [] => some current
  | i, current, op :: ops => do
    let next ← resultAt (i + 1)
    match op with
    | .and => walkFrom resultAt (i + 1) (current && next) ops
    | .or => if current then some true else walkFrom resultAt (i + 1) next ops

/-- **The walk** by index is the walk over the operators with the results after them. -/
theorem walkFrom_eq {resultAt : ℕ → Option Bool} {ops : List LogicalOp} :
    ∀ {i : ℕ} {current : Bool} {results : List Bool}, results.length = ops.length →
      (∀ j, resultAt (i + 1 + j) = results[j]?) →
        walkFrom resultAt i current ops = some (matchGroups current (ops.zip results)) := by
  induction ops with
  | nil => exact fun {_ _ _} _ _ => rfl
  | cons op ops ih =>
    intro i current results hlength hat
    obtain ⟨next, results, rfl⟩ := List.exists_cons_of_length_eq_add_one hlength
    have hnext : resultAt (i + 1) = some next := hat 0
    have hrest : ∀ current, walkFrom resultAt (i + 1) current ops =
        some (matchGroups current (ops.zip results)) := fun current =>
      ih (Nat.succ.inj hlength) fun j => by
        rw [show i + 1 + 1 + j = i + 1 + (j + 1) by omega, hat, List.getElem?_cons_succ]
    rw [walkFrom, hnext, List.zip_cons_cons]
    simp only [Option.bind_eq_bind, Option.bind_some, hrest]
    cases op with
    | and => rfl
    | or => cases current <;> rfl

/-- **The precedence**: the walk over the operators gives the value of what it has and of what is
left. -/
theorem matchGroups_eq {ops : List LogicalOp} : ∀ {current : Bool} {results : List Bool},
    results.length = ops.length →
      matchGroups current (ops.zip results) = orOfAnds id (current :: results) ops := by
  induction ops with
  | nil =>
    intro current results hlength
    obtain rfl := List.eq_nil_of_length_eq_zero hlength
    simp [matchGroups, orOfAnds, orGroups]
  | cons op ops ih =>
    intro current results hlength
    obtain ⟨next, results, rfl⟩ := List.exists_cons_of_length_eq_add_one hlength
    rw [List.zip_cons_cons]
    cases op with
    | and =>
      -- the two conditions are one as far as the value goes
      obtain ⟨group, groups, hgroups⟩ := exists_orGroups_cons results ops
      have hboth : orGroups (current :: next :: results) (.and :: ops) =
          (current :: next :: group) :: groups := by
        rw [orGroups, hgroups]
      rw [matchGroups, ih (Nat.succ.inj hlength), orOfAnds, orOfAnds, hboth, hgroups]
      simp [Bool.and_assoc]
    | or =>
      have hvalue : orOfAnds id (current :: next :: results) (.or :: ops) =
          (current || orOfAnds id (next :: results) ops) := by
        simp [orOfAnds, orGroups]
      rw [matchGroups, ih (Nat.succ.inj hlength), hvalue]
      cases current <;> rfl

end Precedence

namespace TraceStore

variable {Rodeo Spur F64 : Type} [Interner Rodeo Spur] [FloatOps F64]

/-- The result of the condition at an index, with the regular expression at that index; nothing
when there is no such condition. -/
def conditionAt (s : TraceStore Rodeo Spur F64) (span : Span Spur F64)
    (conditions : List (SpanCondition F64)) (compiledRegexes : List (Option (String → Bool)))
    (i : ℕ) : Option Bool :=
  conditions[i]?.map fun condition =>
    s.spanMatchesCondition span condition compiledRegexes[i]?.join

/-- `span_matches_conditions` with its indexes, nothing where one is out of range. -/
def spanMatchesConditionsAt (s : TraceStore Rodeo Spur F64) (span : Span Spur F64)
    (conditions : List (SpanCondition F64)) (logicalOps : List LogicalOp)
    (compiledRegexes : List (Option (String → Bool))) : Option Bool :=
  if conditions.isEmpty then some true
  else do
    let first ← s.conditionAt span conditions compiledRegexes 0
    walkFrom (s.conditionAt span conditions compiledRegexes) 0 first logicalOps

/-- A condition comes with its own regular expression. -/
theorem conditionAt_precompileRegexes (regexNew : String → Option (String → Bool))
    (s : TraceStore Rodeo Spur F64) (span : Span Spur F64)
    (conditions : List (SpanCondition F64)) (i : ℕ) :
    s.conditionAt span conditions (precompileRegexes regexNew conditions) i =
      (conditions.map fun condition =>
        s.spanMatchesCondition span condition (precompileRegex regexNew condition))[i]? := by
  rw [conditionAt, precompileRegexes, List.getElem?_map, List.getElem?_map]
  cases conditions[i]? <;> rfl

/-- **On two lists that fit** no index is out of range: the walk by index is the one over the
lists. -/
theorem spanMatchesConditionsAt_of_fits (regexNew : String → Option (String → Bool))
    (s : TraceStore Rodeo Spur F64) (span : Span Spur F64)
    {conditions : List (SpanCondition F64)} {logicalOps : List LogicalOp}
    (h : Fits conditions logicalOps) :
    s.spanMatchesConditionsAt span conditions logicalOps (precompileRegexes regexNew conditions) =
      some (s.spanMatchesConditions span conditions logicalOps
        (precompileRegexes regexNew conditions)) := by
  rw [spanMatchesConditionsAt, spanMatchesConditions, precompileRegexes,
    ← List.map_prod_left_eq_zip, List.map_map, ← precompileRegexes]
  cases conditions with
  | nil => rfl
  | cons first rest =>
    have hat := conditionAt_precompileRegexes regexNew s span (first :: rest)
    have hrest : ∀ j, s.conditionAt span (first :: rest)
        (precompileRegexes regexNew (first :: rest)) (0 + 1 + j) = (rest.map fun condition =>
          s.spanMatchesCondition span condition (precompileRegex regexNew condition))[j]? := by
      intro j
      rw [hat, List.map_cons, Nat.zero_add, Nat.add_comm, List.getElem?_cons_succ]
    rw [if_neg (by simp), hat, List.map_cons, List.getElem?_cons_zero]
    simp only [Option.bind_eq_bind, Option.bind_some]
    rw [walkFrom_eq (by rw [List.length_map, h.length_eq]) hrest]
    rfl

/-- **The value of a selector** whose lists fit, with `&&` binding tighter than `||`. -/
theorem spanMatchesConditions_of_fits (regexNew : String → Option (String → Bool))
    (s : TraceStore Rodeo Spur F64) (span : Span Spur F64)
    {conditions : List (SpanCondition F64)} {logicalOps : List LogicalOp}
    (h : Fits conditions logicalOps) :
    s.spanMatchesConditions span conditions logicalOps (precompileRegexes regexNew conditions) =
      orOfAnds (fun condition =>
        s.spanMatchesCondition span condition (precompileRegex regexNew condition))
          conditions logicalOps := by
  rw [spanMatchesConditions, precompileRegexes, ← List.map_prod_left_eq_zip, List.map_map,
    ← orOfAnds_map]
  cases conditions with
  | nil =>
    obtain ⟨-, rfl⟩ | hlength := h
    · rfl
    · exact absurd hlength (Nat.succ_ne_zero _)
  | cons first rest =>
    rw [List.map_cons, List.map_cons]
    exact matchGroups_eq (by rw [List.length_map, h.length_eq])

end TraceStore

/-! ### The parser -/

namespace TraceQL

open Combinator Combinators

section Parse

variable {F64 : Type} [Combinators Char] [Alphanumeric] [FloatOps F64]

variable (F64) in
/-- The loop of `parse_conditions`: an operator and a condition are pushed at a time. -/
def pushConditions : ℕ → List Char → List (SpanCondition F64) → List LogicalOp →
    Except (Err Char) (List Char × List (SpanCondition F64) × List LogicalOp)
  | 0, _, _, _ => .error .stuck
  | n + 1, input, conditions, logicalOps => do
    let (trimmed, _) ← multispace0 input
    match parseLogicalOp trimmed with
    | .error _ => return (input, conditions, logicalOps)
    | .ok (rest, op) =>
      let (rest, _) ← multispace0 rest
      match (parseCondition rest : Except (Err Char) (List Char × SpanCondition F64)) with
      | .ok (rest, condition) =>
        pushConditions n rest (conditions ++ [condition]) (logicalOps ++ [op])
      | .error .stuck => throw .stuck
      | .error _ => throw (.failure ⟨rest, .tag⟩)

/-- `parse_conditions`, with its two lists. -/
def parseConditionVecs (input : List Char) :
    Except (Err Char) (List Char × List (SpanCondition F64) × List LogicalOp) :=
  match parseCondition input with
  | .ok (rest, first) => pushConditions F64 (rest.length + 1) rest [first] []
  | .error .stuck => .error .stuck
  | .error _ => .ok (input, [], [])

/-- What is pushed goes after what is there. -/
theorem pushConditions_eq {n : ℕ} : ∀ {input : List Char} {conditions : List (SpanCondition F64)}
    {logicalOps : List LogicalOp},
    pushConditions F64 n input conditions logicalOps =
      (parseMoreConditions F64 n input).map fun r =>
        (r.1, conditions ++ r.2.map Prod.snd, logicalOps ++ r.2.map Prod.fst) := by
  induction n with
  | zero => exact fun {_ _ _} => rfl
  | succ n ih =>
    intro input conditions logicalOps
    rw [pushConditions, parseMoreConditions]
    simp only [bind, Except.bind]
    cases multispace0 input with
    | error e => rfl
    | ok trimmed =>
      dsimp only
      cases parseLogicalOp trimmed.1 with
      | error e => simp [pure, Except.pure, Except.map]
      | ok r =>
        dsimp only
        cases multispace0 r.1 with
        | error e => rfl
        | ok spaced =>
          dsimp only
          cases (parseCondition spaced.1 : Except _ (List Char × SpanCondition F64)) with
          | error e => cases e <;> rfl
          | ok c =>
            dsimp only
            rw [ih]
            cases parseMoreConditions F64 n c.1 with
            | error e => rfl
            | ok more => simp [pure, Except.pure, Except.map]

/-- **The two lists are those of the parsed selector.** -/
theorem parseConditionVecs_eq (input : List Char) :
    parseConditionVecs input = (parseConditions input).map fun r =>
      (r.1, (r.2.conditions : List (SpanCondition F64)), r.2.logicalOps) := by
  rw [parseConditionVecs, parseConditions]
  cases (parseCondition input : Except _ (List Char × SpanCondition F64)) with
  | error e => cases e <;> rfl
  | ok first =>
    dsimp only
    rw [pushConditions_eq]
    cases parseMoreConditions F64 (first.1.length + 1) first.1 <;> rfl

/-- **The lists of the parser fit.** -/
theorem fits_of_parseConditionVecs {input rest : List Char} {conditions : List (SpanCondition F64)}
    {logicalOps : List LogicalOp}
    (h : parseConditionVecs input = .ok (rest, conditions, logicalOps)) :
    Fits conditions logicalOps := by
  rw [parseConditionVecs] at h
  split at h
  · next r first _ =>
    rw [pushConditions_eq] at h
    cases hmore : parseMoreConditions F64 (r.length + 1) r with
    | error e => exact absurd h (by simp [hmore, Except.map])
    | ok more =>
      rw [hmore] at h
      obtain ⟨-, rfl, rfl⟩ : more.1 = rest ∧ [first] ++ more.2.map Prod.snd = conditions ∧
          [] ++ more.2.map Prod.fst = logicalOps := by simpa [Except.map] using h
      exact .inr (by simp)
  · exact absurd h (by simp)
  · obtain ⟨-, rfl, rfl⟩ : input = rest ∧ [] = conditions ∧ [] = logicalOps := by simpa using h
    exact .inl ⟨rfl, rfl⟩

/-- The span selectors of a query. -/
def TraceQLExpr.selectors : TraceQLExpr F64 → List (SpanSelector F64)
  | .spanSelector selector => [selector]
  | .structural _ lhs rhs => lhs.selectors ++ rhs.selectors
  | .pipeline inner _ => inner.selectors

/-- What `parse_span_selector` gives is a selector, and it comes from `parse_conditions`. -/
theorem exists_of_parseSpanSelector {input rest : List Char} {expr : TraceQLExpr F64}
    (h : parseSpanSelector input = .ok (rest, expr)) :
    ∃ selector, expr = .spanSelector selector ∧ ∃ input rest,
      parseConditionVecs input = .ok (rest, selector.conditions, selector.logicalOps) := by
  rw [parseSpanSelector] at h
  obtain ⟨spaced, -, h⟩ := exists_of_bind_eq_ok h
  obtain ⟨opened, -, h⟩ := exists_of_bind_eq_ok h
  obtain ⟨start, -, h⟩ := exists_of_bind_eq_ok h
  obtain ⟨parsed, hparsed, h⟩ := exists_of_bind_eq_ok h
  obtain ⟨ended, -, h⟩ := exists_of_bind_eq_ok h
  obtain ⟨closed, -, h⟩ := exists_of_bind_eq_ok h
  exact ⟨parsed.2, (Prod.mk.inj (Except.ok.inj h)).2.symm, start.1, parsed.1,
    by rw [parseConditionVecs_eq, hparsed]; rfl⟩

/-- What `parse_top_level` gives: a selector, or an operator between two. -/
theorem parts_of_parseTopLevel {input rest : List Char} {expr : TraceQLExpr F64}
    (h : parseTopLevel input = .ok (rest, expr)) :
    (∃ input rest, parseSpanSelector input = .ok (rest, expr)) ∨
      ∃ op lhs rhs, expr = .structural op lhs rhs ∧
        (∃ input rest, parseSpanSelector input = .ok (rest, lhs)) ∧
        ∃ input rest, parseSpanSelector input = .ok (rest, rhs) := by
  rw [parseTopLevel] at h
  obtain ⟨⟨left, lhs⟩, hlhs, h⟩ := exists_of_bind_eq_ok h
  obtain ⟨spaced, -, h⟩ := exists_of_bind_eq_ok h
  dsimp only at h
  split at h
  · next op _ =>
    obtain ⟨start, -, h⟩ := exists_of_bind_eq_ok h
    obtain ⟨⟨right, rhs⟩, hrhs, h⟩ := exists_of_bind_eq_ok h
    exact .inr ⟨op, lhs, rhs, (Prod.mk.inj (Except.ok.inj h)).2.symm, ⟨_, _, hlhs⟩, ⟨_, _, hrhs⟩⟩
  · obtain rfl := (Prod.mk.inj (Except.ok.inj h)).2
    exact .inl ⟨_, _, hlhs⟩

/-- **The operands of a structural query** are selectors. -/
theorem operands_of_parseTopLevel {input rest : List Char} {op : StructuralOp}
    {lhs rhs : TraceQLExpr F64} (h : parseTopLevel input = .ok (rest, .structural op lhs rhs)) :
    ∃ l r, lhs = .spanSelector l ∧ rhs = .spanSelector r := by
  rcases parts_of_parseTopLevel h with ⟨_, _, hone⟩ | ⟨_, _, _, heq, ⟨_, _, hlhs⟩, ⟨_, _, hrhs⟩⟩
  · obtain ⟨selector, heq, -⟩ := exists_of_parseSpanSelector hone
    exact absurd heq (by simp)
  · obtain ⟨-, rfl, rfl⟩ := TraceQLExpr.structural.inj heq
    obtain ⟨l, hl, -⟩ := exists_of_parseSpanSelector hlhs
    obtain ⟨r, hr, -⟩ := exists_of_parseSpanSelector hrhs
    exact ⟨l, r, hl, hr⟩

/-- Each selector of a query comes from `parse_conditions`. -/
theorem exists_of_parseTopLevel {input rest : List Char} {expr : TraceQLExpr F64}
    (h : parseTopLevel input = .ok (rest, expr)) :
    ∀ selector ∈ expr.selectors, ∃ input rest,
      parseConditionVecs input = .ok (rest, selector.conditions, selector.logicalOps) := by
  have hone : ∀ {input rest} {expr : TraceQLExpr F64}, parseSpanSelector input = .ok (rest, expr) →
      ∀ selector ∈ expr.selectors, ∃ input rest,
        parseConditionVecs input = .ok (rest, selector.conditions, selector.logicalOps) := by
    intro input rest expr hexpr selector hselector
    obtain ⟨selector', rfl, hparse⟩ := exists_of_parseSpanSelector hexpr
    obtain rfl := List.mem_singleton.mp hselector
    exact hparse
  rcases parts_of_parseTopLevel h with ⟨_, _, hexpr⟩ | ⟨_, _, _, rfl, ⟨_, _, hlhs⟩, ⟨_, _, hrhs⟩⟩
  · exact hone hexpr
  · intro selector hselector
    exact (List.mem_append.mp hselector).elim (hone hlhs selector) (hone hrhs selector)

theorem exists_of_parseTraceql {display : Err Char → String} {query : String}
    {expr : TraceQLExpr F64} (h : parseTraceql display query = some (.ok expr)) :
    ∀ selector ∈ expr.selectors, ∃ input rest,
      parseConditionVecs input = .ok (rest, selector.conditions, selector.logicalOps) := by
  rw [parseTraceql] at h
  split at h
  · next remaining top htop =>
    have hselectors : expr.selectors = top.selectors := by
      rw [finishParse] at h
      dsimp only at h
      split at h
      · exact absurd h (by simp)
      · next stages _ =>
        split at h
        · obtain rfl := Except.ok.inj (Option.some.inj h)
          split <;> rfl
        · exact absurd h (by simp)
    exact hselectors ▸ exists_of_parseTopLevel htop
  · exact absurd h (by simp)
  · exact absurd h (by simp)

/-- **The selectors of a query.** Each selector of an accepted query comes from a run of the loop of
the parser. Its two lists fit, no index of the evaluator is out of range, and what the evaluator
computes, by its indexes as along its lists, is the value of the selector with `&&` binding tighter
than `||`. -/
theorem spanMatchesConditionsAt_parsed (Rodeo Spur : Type) [Interner Rodeo Spur]
    {display : Err Char → String} {query : String} {expr : TraceQLExpr F64}
    (h : parseTraceql display query = some (.ok expr)) :
    ∀ selector ∈ expr.selectors,
      (∃ input rest,
        parseConditionVecs input = .ok (rest, selector.conditions, selector.logicalOps)) ∧
      Fits selector.conditions selector.logicalOps ∧
      ∀ (regexNew : String → Option (String → Bool)) (s : TraceStore Rodeo Spur F64)
        (span : Span Spur F64),
        let value := orOfAnds (fun condition =>
          s.spanMatchesCondition span condition (precompileRegex regexNew condition))
            selector.conditions selector.logicalOps
        s.spanMatchesConditionsAt span selector.conditions selector.logicalOps
            (precompileRegexes regexNew selector.conditions) = some value ∧
          s.spanMatchesConditions span selector.conditions selector.logicalOps
            (precompileRegexes regexNew selector.conditions) = value := by
  intro selector hselector
  obtain ⟨input, rest, hparse⟩ := exists_of_parseTraceql h selector hselector
  have hfits := fits_of_parseConditionVecs hparse
  refine ⟨⟨input, rest, hparse⟩, hfits, fun regexNew s span => ?_⟩
  have hvalue := TraceStore.spanMatchesConditions_of_fits regexNew s span hfits
  rw [TraceStore.spanMatchesConditionsAt_of_fits regexNew s span hfits]
  exact ⟨congrArg some hvalue, hvalue⟩

end Parse

/-- A span with an id, a parent, a name and nothing else, to evaluate with. -/
def bareSpan (spanId : SpanId) (parentSpanId : Option SpanId) (name : ℕ) : Span ℕ ℤ where
  traceId := Vector.replicate 16 1
  spanId := spanId
  parentSpanId := parentSpanId
  name := name
  serviceName := name
  startTimeNs := 0
  durationNs := 0
  status := .unset
  statusMessage := none
  kind := .internal
  attributes := []
  events := []
  links := []
  ingestSeq := 0

/-- One of three conditions holds before a `||`, and both others after it. -/
theorem spanMatchesConditionsAt_parsed_orAnd :
    let selector : SpanSelector ℤ :=
      ⟨[.name .eq "a", .name .eq "b", .name .neq "c"], [.or, .and], rfl⟩
    let s : TraceStore VecRodeo ℕ ℤ :=
      { (TraceStore.new : TraceStore VecRodeo ℕ ℤ) with interner := ⟨["b"]⟩ }
    Fits selector.conditions selector.logicalOps ∧
      s.spanMatchesConditionsAt (bareSpan (Vector.replicate 8 1) none 0) selector.conditions
        selector.logicalOps (precompileRegexes (fun _ => none) selector.conditions) =
          some true := by
  let _ : Combinators Char := ofLists
  let _ : Alphanumeric := .ascii
  intro selector s
  have hparse : parseTraceql (fun _ => "") "\x7bname=\"a\"||name=\"b\"&&name!=\"c\"\x7d" =
      some (.ok (.spanSelector selector)) := rfl
  obtain ⟨-, hfits, hvalue⟩ :=
    spanMatchesConditionsAt_parsed VecRodeo ℕ hparse selector (List.mem_singleton_self selector)
  exact ⟨hfits, (hvalue (fun _ => none) s _).1.trans rfl⟩

end TraceQL

end Aniani
