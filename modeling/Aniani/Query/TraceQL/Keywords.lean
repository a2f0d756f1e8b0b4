import Aniani.Query.TraceQL.Remainder

/-!
# Keywords and attribute names

A condition is parsed by the word it begins with, and four words are keywords. Whether the input begins
with a keyword is decided by the character after it: a letter, a digit, `_` or `.` goes on with a longer
word. An attribute name may also go on with `-`, so that an attribute whose name goes on in this way
after a keyword is taken for the keyword, and its condition is not parsed.

## Main definitions

* `keywords`, `IsAttributeName` — the names that are to be attributes
* `conditionText` — a condition on a name, with an operator and a literal
* `KeepsAttribute` — every such condition is parsed as one on the attribute
* `Shadowed` — the names that begin with a keyword and a hyphen

## Main results

* `spacedCompareOp_chars` — every operator is read, with white space around it
* `peekKeyword_append_iff` — which names are taken for a keyword
* `keepsAttribute_iff` — the conditions on a name that is not shadowed
-/

namespace Aniani

open Combinator Combinators

namespace TraceQL

/-- The words that conditions are parsed by. -/
def keywords : List (List Char) :=
  ["duration".toList, "status".toList, "kind".toList, "name".toList]

/-- The names that begin with a keyword and a hyphen. -/
def Shadowed (word : List Char) : Prop := ∃ keyword ∈ keywords, keyword ++ ['-'] <+: word

/-- White space that is skipped. -/
def IsSpaces (s : List Char) : Prop := ∀ c ∈ s, isMultispace c = true

/-! ### Operators -/

section Operators

variable [Combinators Char]

/-- An operator is read with the white space around it. -/
theorem spacedCompareOp_chars (op : CompareOp) {before after s : List Char}
    (hbefore : IsSpaces before) (hafter : IsSpaces after)
    (hs : ∀ c ∈ s.head?, isMultispace c = false ∧ c ≠ '=' ∧ c ≠ '~') :
    spacedCompareOp (before ++ (op.chars ++ (after ++ s))) = .ok (s, op) := by
  have hhead : ∀ c ∈ (op.chars ++ (after ++ s)).head?, isMultispace c = false := by
    cases op <;> exact fun c hc => Option.some.inj hc ▸ (by decide)
  have hop : parseCompareOp (op.chars ++ (after ++ s)) = .ok (after ++ s, op) := by
    refine parseCompareOp_chars op fun c hc => ?_
    cases after with
    | nil => exact (hs c hc).2
    | cons d after =>
      obtain rfl := Option.some.inj hc
      have hspace := hafter d List.mem_cons_self
      constructor
      · rintro rfl
        exact absurd hspace (by decide)
      · rintro rfl
        exact absurd hspace (by decide)
  have hspaces : multispace0 (before ++ (op.chars ++ (after ++ s))) =
      .ok (op.chars ++ (after ++ s), before) := takeWhile0_append hbefore hhead
  have hspaces' : multispace0 (after ++ s) = .ok (s, after) :=
    takeWhile0_append hafter fun c hc => (hs c hc).1
  rw [spacedCompareOp]
  simp only [bind, Except.bind, hspaces, hop, hspaces']
  rfl

end Operators

/-! ### Literals -/

section Literals

variable {F64 : Type} [Combinators Char] [Alphanumeric] [FloatOps F64]

/-- What does not begin as a string, a Boolean or a number does is no value. -/
theorem isError_parseSpanValue {s : List Char}
    (h : ∀ c ∈ s.head?, c ∉ ['"', 't', 'f'] ∧ (c.isDigit || c == '.' || c == '-') = false) :
    IsError (parseSpanValue s : IResult Char (SpanValue F64)) := by
  have hnot : ∀ word ∈ ["true".toList, "false".toList], ¬ word <+: s := by
    intro word hword hprefix
    obtain ⟨rest, rfl⟩ := hprefix
    simp only [List.mem_cons, List.not_mem_nil, or_false] at hword
    obtain rfl | rfl := hword
    · exact (h 't' rfl).1 (by decide)
    · exact (h 'f' rfl).1 (by decide)
  refine isError_alt (by simp) fun p hp => ?_
  simp only [List.mem_cons, List.not_mem_nil, or_false] at hp
  obtain rfl | rfl | rfl := hp
  · refine isError_map (isError_bind (isError_char fun hquote => ?_) _)
    exact (h '"' hquote).1 (by decide)
  · refine isError_bind (isError_alt (by simp) fun p hp => ?_) _
    simp only [List.mem_cons, List.not_mem_nil, or_false] at hp
    obtain rfl | rfl := hp
    · exact isError_tag (hnot _ (by simp))
    · exact isError_tag (hnot _ (by simp))
  · have hrun : s.takeWhile (fun c => c.isDigit || c == '.' || c == '-') = [] := by
      cases s with
      | nil => rfl
      | cons c s => simp only [List.takeWhile_cons, (h c rfl).2, Bool.false_eq_true, if_false]
    rw [parseNumericValue, takeWhile1_of_nil hrun]
    exact isError_error _

/-- A literal begins with no white space, and with nothing that an operator goes on with. -/
theorem head_of_parseSpanValue {s : List Char} {r : List Char × SpanValue F64}
    (h : parseSpanValue s = .ok r) :
    ∀ c ∈ s.head?, isMultispace c = false ∧ c ≠ '=' ∧ c ≠ '~' := by
  intro c hc
  have hother : c ∉ [' ', '\t', '\r', '\n', '=', '~'] := by
    intro hmem
    have hnone : ∀ d ∈ [' ', '\t', '\r', '\n', '=', '~'],
        d ∉ ['"', 't', 'f'] ∧ (d.isDigit || d == '.' || d == '-') = false :=
      List.forall_iff_forall_mem.mp (by decide)
    refine not_isError_ok r (h ▸ isError_parseSpanValue fun d hd => ?_)
    obtain rfl := Option.mem_unique hc hd
    exact hnone c hmem
  simp only [List.mem_cons, List.not_mem_nil, or_false, not_or] at hother
  obtain ⟨hspace, htab, hreturn, hnewline, hequals, htilde⟩ := hother
  exact ⟨by simp [isMultispace, hspace, htab, hreturn, hnewline], hequals, htilde⟩

end Literals

/-! ### Names -/

section Names

variable [Alphanumeric]

/-- The identifiers that are neither a keyword nor the name of something of an event. -/
structure IsAttributeName (word : List Char) : Prop where
  ne_nil : word ≠ []
  isAttrChar : ∀ c ∈ word, isAttrChar c = true
  not_keyword : word ∉ keywords
  not_event : ¬ "event.".toList <+: word

theorem isAttrChar_of_isMultispace {c : Char} (h : isMultispace c = true) :
    TraceQL.isAttrChar c = false := by
  have hother : ∀ d ∈ ['.', '_', '-'], isMultispace d = false :=
    List.forall_iff_forall_mem.mp (by decide)
  have hne : ∀ d ∈ ['.', '_', '-'], (c == d) = false := by
    intro d hd
    refine beq_eq_false_iff_ne.mpr ?_
    rintro rfl
    exact absurd h (by simp [hother c hd])
  rw [TraceQL.isAttrChar, isAlphanumeric_of_isMultispace h, hne '.' (by simp), hne '_' (by simp),
    hne '-' (by simp)]
  rfl

theorem isAttrChar_of_isAlphanum {c : Char} (h : c.isAlphanum = true) :
    TraceQL.isAttrChar c = true := by
  rw [TraceQL.isAttrChar, isAlphanumeric_of_isAlphanum h]
  rfl

theorem isWordChar_hyphen : isWordChar '-' = false := by
  rw [isWordChar, Alphanumeric.isAlphanumeric_of_ascii (by decide)]
  rfl

/-- A word goes on with every character of an attribute name but the hyphen. -/
theorem isWordChar_of_isAttrChar {c : Char} (h : TraceQL.isAttrChar c = true) (hne : c ≠ '-') :
    isWordChar c = true := by
  rw [TraceQL.isAttrChar, beq_eq_false_iff_ne.mpr hne, Bool.or_false] at h
  rwa [isWordChar, Bool.or_right_comm]

theorem isWordChar_eq_false {c : Char} (h : TraceQL.isAttrChar c = false) :
    isWordChar c = false := by
  rw [TraceQL.isAttrChar, Bool.or_eq_false_iff, Bool.or_right_comm] at h
  exact h.1

theorem isAttrChar_of_mem_keyword {keyword : List Char} (h : keyword ∈ keywords) :
    ∀ c ∈ keyword, TraceQL.isAttrChar c = true := by
  have hletters : ∀ keyword ∈ keywords, keyword.all Char.isAlphanum = true := by decide
  exact fun c hc => isAttrChar_of_isAlphanum (List.all_eq_true.mp (hletters keyword h) c hc)

/-- After an identifier comes what is no part of one, so that an identifier at the beginning of the
text is one at the beginning of it. -/
theorem prefix_append_iff {keyword word tail : List Char}
    (hkeyword : ∀ c ∈ keyword, TraceQL.isAttrChar c = true)
    (htail : ∀ c ∈ tail.head?, TraceQL.isAttrChar c = false) :
    keyword <+: word ++ tail ↔ keyword <+: word := by
  refine ⟨fun h => ?_, fun h => h.trans (List.prefix_append word tail)⟩
  obtain h' | ⟨more, rfl⟩ := List.prefix_or_prefix_of_prefix h (List.prefix_append word tail)
  · exact h'
  · rw [List.prefix_append_right_inj] at h
    obtain ⟨rest, rfl⟩ := h
    cases more with
    | nil => simp
    | cons c more =>
      have hyes := hkeyword c (by simp)
      exact absurd (htail c rfl) (by simp [hyes])

/-- **Which identifiers are taken for a keyword**: the keyword, and what goes on with a hyphen. -/
theorem peekKeyword_append_iff {keyword word tail : List Char}
    (hkeyword : ∀ c ∈ keyword, TraceQL.isAttrChar c = true)
    (hword : ∀ c ∈ word, TraceQL.isAttrChar c = true)
    (htail : ∀ c ∈ tail.head?, TraceQL.isAttrChar c = false) :
    peekKeyword (word ++ tail) keyword = true ↔ word = keyword ∨ keyword ++ ['-'] <+: word := by
  constructor
  · intro h
    rw [peekKeyword, Bool.and_eq_true, List.isPrefixOf_iff_prefix,
      prefix_append_iff hkeyword htail] at h
    obtain ⟨⟨more, rfl⟩, hnext⟩ := h
    rw [List.append_assoc, List.drop_left] at hnext
    cases more with
    | nil => exact .inl (List.append_nil keyword)
    | cons c more =>
      refine .inr ?_
      by_cases hc : c = '-'
      · rw [hc]
        exact ⟨more, by simp⟩
      · have hyes := isWordChar_of_isAttrChar (hword c (by simp)) hc
        exact absurd hnext (by simp [hyes])
  · rintro (rfl | ⟨more, rfl⟩)
    · cases tail with
      | nil => simp [peekKeyword]
      | cons c tail => exact peekKeyword_append (isWordChar_eq_false (htail c rfl)) word tail
    · simpa using peekKeyword_append isWordChar_hyphen keyword (more ++ tail)

end Names

/-! ### Conditions -/

section Conditions

variable {F64 : Type} [Combinators Char] [Alphanumeric] [FloatOps F64]

/-- A condition on a name: an operator, with white space around it, and a literal. -/
def conditionText (word before : List Char) (op : CompareOp) (after literal : List Char) :
    List Char :=
  word ++ (before ++ (op.chars ++ (after ++ literal)))

variable (F64) in
/-- Every condition on a name, whatever its operator and its value, is parsed as one on the attribute
of that name. -/
def KeepsAttribute (word : List Char) : Prop :=
  ∀ (spaces before : List Char) (op : CompareOp) (after literal rest : List Char)
    (value : SpanValue F64), IsSpaces spaces → IsSpaces before → IsSpaces after →
      parseSpanValue (literal ++ rest) = .ok (rest, value) →
        parseCondition (spaces ++ conditionText word before op after (literal ++ rest)) =
          .ok (rest, .attribute (attrScope word).1 (String.ofList (attrScope word).2) op value)

omit [Combinators Char] [FloatOps F64] in
/-- An identifier ends where the operator or the white space before it begins. -/
theorem isAttrChar_head_operator (op : CompareOp) {before : List Char} (hbefore : IsSpaces before)
    (s : List Char) : ∀ c ∈ (before ++ (op.chars ++ s)).head?, isAttrChar c = false := by
  have hsigns : ∀ c ∈ ['=', '!', '>', '<'], isAttrChar c = false := by
    intro c hc
    have hascii : ∀ c ∈ ['=', '!', '>', '<'],
        c.toNat < 128 ∧ (c.isAlphanum || c == '.' || c == '_' || c == '-') = false :=
      List.forall_iff_forall_mem.mp (by decide)
    rw [isAttrChar, Alphanumeric.isAlphanumeric_of_ascii (hascii c hc).1]
    exact (hascii c hc).2
  intro c hc
  cases before with
  | nil => cases op <;> exact hsigns c (Option.some.inj hc ▸ by simp)
  | cons d before =>
    obtain rfl := Option.some.inj hc
    exact isAttrChar_of_isMultispace (hbefore d List.mem_cons_self)

/-- What an attribute's condition is parsed to. -/
theorem parseAttributeCondition_conditionText {word : List Char} (hne : word ≠ [])
    (hword : ∀ c ∈ word, isAttrChar c = true) {before after s rest : List Char} (op : CompareOp)
    (hbefore : IsSpaces before) (hafter : IsSpaces after) {value : SpanValue F64}
    (hvalue : parseSpanValue s = .ok (rest, value)) :
    parseAttributeCondition (conditionText word before op after s) =
      .ok (rest, .attribute (attrScope word).1 (String.ofList (attrScope word).2) op value) := by
  have hname : takeWhile1 isAttrChar (conditionText word before op after s) =
      .ok (before ++ (op.chars ++ (after ++ s)), word) :=
    takeWhile1_append hne hword (isAttrChar_head_operator op hbefore _)
  have hop := spacedCompareOp_chars op hbefore hafter (head_of_parseSpanValue hvalue)
  rw [parseAttributeCondition]
  simp only [bind, Except.bind, hname, hop, hvalue]
  rfl

/-- **A name that is not shadowed** is one of an attribute. -/
theorem keepsAttribute_of_not_shadowed {word : List Char} (h : IsAttributeName word)
    (hnot : ¬ Shadowed word) : KeepsAttribute F64 word := by
  intro spaces before op after literal rest value hspaces hbefore hafter hvalue
  have hattribute := parseAttributeCondition_conditionText h.ne_nil h.isAttrChar op hbefore hafter
    hvalue
  have hend := isAttrChar_head_operator op hbefore (after ++ (literal ++ rest))
  have hskip : multispace0 (spaces ++ conditionText word before op after (literal ++ rest)) =
      .ok (conditionText word before op after (literal ++ rest), spaces) := by
    refine takeWhile0_append hspaces fun c hc => ?_
    cases word with
    | nil => exact absurd rfl h.ne_nil
    | cons d word =>
      obtain rfl := Option.some.inj hc
      have hyes := h.isAttrChar d List.mem_cons_self
      by_contra hspace
      simp [isAttrChar_of_isMultispace (Bool.not_eq_false _ ▸ hspace)] at hyes
  have hdispatch : ∀ keyword ∈ keywords,
      peekKeyword (conditionText word before op after (literal ++ rest)) keyword = false := by
    intro keyword hkeyword
    rw [Bool.eq_false_iff, conditionText, ne_eq,
      peekKeyword_append_iff (isAttrChar_of_mem_keyword hkeyword) h.isAttrChar hend]
    rintro (rfl | hshadow)
    · exact h.not_keyword hkeyword
    · exact hnot ⟨keyword, hkeyword, hshadow⟩
  have hevent : "event.".toList.isPrefixOf
      (conditionText word before op after (literal ++ rest)) = false := by
    have hletters : ∀ c ∈ "event.".toList, isAttrChar c = true := by
      have hchars : ∀ c ∈ "event.".toList, c.isAlphanum = true ∨ c = '.' :=
        List.forall_iff_forall_mem.mp (by decide)
      intro c hc
      obtain hletter | rfl := hchars c hc
      · exact isAttrChar_of_isAlphanum hletter
      · simp [isAttrChar]
    rw [Bool.eq_false_iff, conditionText, ne_eq, List.isPrefixOf_iff_prefix,
      prefix_append_iff hletters hend]
    exact h.not_event
  rw [parseCondition]
  simp only [bind, Except.bind, hskip, hdispatch "duration".toList (by simp [keywords]),
    hdispatch "status".toList (by simp [keywords]), hdispatch "kind".toList (by simp [keywords]),
    hdispatch "name".toList (by simp [keywords]), hevent, Bool.false_eq_true, if_false]
  exact hattribute

omit [Alphanumeric] in
/-- A hyphen begins no operator. -/
theorem isError_spacedCompareOp_hyphen (s : List Char) : IsError (spacedCompareOp ('-' :: s)) := by
  have hop : IsError (parseCompareOp ('-' :: s)) := by
    refine isError_alt (by simp) fun p hp => ?_
    simp only [List.mem_cons, List.not_mem_nil, or_false] at hp
    obtain rfl | rfl | rfl | rfl | rfl | rfl | rfl := hp <;>
      exact isError_map (isError_tag (by simp))
  rw [spacedCompareOp, multispace0_cons (by decide)]
  exact isError_bind hop _

omit [Alphanumeric] in
theorem isError_parseWordCondition_hyphen {α : Type} (keyword : List Char)
    (words : List (String × α)) (s : List Char) :
    IsError (parseWordCondition keyword words (keyword ++ '-' :: s)) := by
  rw [parseWordCondition, tag_append]
  exact isError_bind (isError_spacedCompareOp_hyphen s) _

/-- **A keyword with a hyphen after it** begins no condition. -/
theorem isError_parseCondition_hyphen {keyword : List Char} (h : keyword ∈ keywords)
    (s : List Char) :
    IsError (parseCondition (keyword ++ '-' :: s) : IResult Char (SpanCondition F64)) := by
  have hpeek := peekKeyword_append isWordChar_hyphen keyword s
  have hother : ∀ word : List Char, ¬ word <+: keyword ++ '-' :: s →
      peekKeyword (keyword ++ '-' :: s) word = false := fun _ => peekKeyword_of_not_prefix
  have hskip : ∀ c l, keyword = c :: l → isMultispace c = false →
      multispace0 (keyword ++ '-' :: s) = .ok (keyword ++ '-' :: s, []) := by
    rintro c l rfl hc
    exact multispace0_cons hc _
  have hop := isError_spacedCompareOp_hyphen s
  rw [parseCondition]
  simp only [keywords, List.mem_cons, List.not_mem_nil, or_false] at h
  obtain rfl | rfl | rfl | rfl := h
  · rw [hskip 'd' "uration".toList rfl (by decide)]
    simp only [bind, Except.bind, hpeek, if_true]
    rw [parseDurationCondition, tag_append]
    exact isError_bind hop _
  · rw [hskip 's' "tatus".toList rfl (by decide)]
    simp only [bind, Except.bind, hother "duration".toList (by simp), hpeek, Bool.false_eq_true,
      if_false, if_true]
    exact isError_bind (isError_parseWordCondition_hyphen _ _ s) _
  · rw [hskip 'k' "ind".toList rfl (by decide)]
    simp only [bind, Except.bind, hother "duration".toList (by simp),
      hother "status".toList (by simp), hpeek, Bool.false_eq_true, if_false, if_true]
    exact isError_bind (isError_parseWordCondition_hyphen _ _ s) _
  · rw [hskip 'n' "ame".toList rfl (by decide)]
    simp only [bind, Except.bind, hother "duration".toList (by simp),
      hother "status".toList (by simp), hother "kind".toList (by simp), hpeek, Bool.false_eq_true,
      if_false, if_true]
    rw [parseNameCondition, tag_append]
    exact isError_bind hop _

/-- **The conditions on an attribute are parsed as such** exactly when its name does not go on with a
hyphen after a keyword. -/
theorem keepsAttribute_iff {word : List Char} (h : IsAttributeName word) :
    KeepsAttribute F64 word ↔ ¬ Shadowed word := by
  refine ⟨?_, keepsAttribute_of_not_shadowed h⟩
  rintro hkeeps ⟨keyword, hkeyword, more, rfl⟩
  have hvalue : parseSpanValue (['"', '"'] ++ []) = .ok ([], (.string "" : SpanValue F64)) := by
    have hread := quotedString_escapeQuoted "" []
    exact alt_of_ok (map_of_ok hread)
  have hparse := hkeeps [] [] .eq [] ['"', '"'] [] (.string "") (by simp [IsSpaces])
    (by simp [IsSpaces]) (by simp [IsSpaces]) hvalue
  have herror : IsError (parseCondition ([] ++ conditionText (keyword ++ ['-'] ++ more) [] .eq []
      (['"', '"'] ++ [])) : IResult Char (SpanCondition F64)) := by
    simpa [conditionText] using isError_parseCondition_hyphen hkeyword _
  exact not_isError_ok _ (hparse ▸ herror)

end Conditions

/-- A name that goes on with a dot after a keyword is kept. -/
theorem keepsAttribute_iff_statusCode :
    let _ : Combinators Char := ofLists
    let _ : Alphanumeric := .ascii
    IsAttributeName "status.code".toList ∧
      (KeepsAttribute ℤ "status.code".toList ↔ ¬ Shadowed "status.code".toList) := by
  intro _ _
  have hname : IsAttributeName "status.code".toList :=
    ⟨by decide, List.forall_iff_forall_mem.mp (by decide), by decide, by decide⟩
  exact ⟨hname, keepsAttribute_iff hname⟩

/-- **A condition on `status-code`** is taken for one on the status, and its query is refused. -/
theorem not_keepsAttribute_statusCode :
    let _ : Combinators Char := ofLists
    let _ : Alphanumeric := .ascii
    IsAttributeName "status-code".toList ∧ ¬ KeepsAttribute ℤ "status-code".toList ∧
      (parseTraceql (fun _ => "error") "\x7bstatus-code=5\x7d" :
        Option (Except String (TraceQLExpr ℤ))) = some (.error "error") := by
  intro _ _
  refine ⟨⟨by decide, List.forall_iff_forall_mem.mp (by decide), by decide, by decide⟩, fun hkeeps => ?_, rfl⟩
  have hparse := hkeeps [] [] .eq [] ['5'] [] (.int 5) (by simp [IsSpaces]) (by simp [IsSpaces])
    (by simp [IsSpaces]) rfl
  have herror : ∃ e, parseCondition "status-code=5".toList =
      (.error e : Except (Err Char) (List Char × SpanCondition ℤ)) := ⟨_, rfl⟩
  obtain ⟨e, he⟩ := herror
  exact absurd (hparse.symm.trans he) (by simp)

end TraceQL

end Aniani
