import Aniani.ForMathlib.Combinator
import Aniani.Query.Text

/-!
# White space and string literals

Both query languages skip white space and read string literals in the same way, and text that is put
into a query is escaped for them.

## Main definitions

* `multispace0` — white space is skipped
* `quotedString` — `parse_quoted_string` of either language
* `escapeQuoted` — what is done to text before it is quoted
* `standsForItself` — text that need not be escaped

## Main results

* `quotedString_escapeQuoted` — an escaped text in quotes is read back, and nothing after it
* `quotedBody_of_standsForItself`, `standsForItself_of_quotedBody` — when a text is that is not escaped
-/

namespace Aniani

open Combinator Combinators

/-! ### White space -/

/-- The white space of `multispace0`. -/
def isMultispace (c : Char) : Bool := decide (c ∈ [' ', '\t', '\r', '\n'])

/-- `multispace0`. -/
def multispace0 [Combinators Char] (input : List Char) : IResult Char (List Char) :=
  takeWhile0 isMultispace input

@[simp]
theorem multispace0_nil [Combinators Char] : multispace0 [] = .ok ([], []) :=
  takeWhile0_append (l := []) (by simp) (by simp)

/-- No white space is skipped before what is none. -/
theorem multispace0_of_head [Combinators Char] {s : List Char}
    (h : ∀ c ∈ s.head?, isMultispace c = false) : multispace0 s = .ok (s, []) :=
  takeWhile0_append (l := []) (by simp) h

theorem multispace0_cons [Combinators Char] {c : Char} (h : isMultispace c = false)
    (s : List Char) : multispace0 (c :: s) = .ok (c :: s, []) :=
  multispace0_of_head (by simpa using h)

/-- A space is skipped. -/
theorem multispace0_space [Combinators Char] {s : List Char}
    (h : ∀ c ∈ s.head?, isMultispace c = false) : multispace0 (' ' :: s) = .ok (s, [' ']) :=
  takeWhile0_append (l := [' ']) (List.forall_mem_singleton.mpr (by decide)) h

theorem multispace0_space_cons [Combinators Char] {c : Char} (h : isMultispace c = false)
    (s : List Char) : multispace0 (' ' :: c :: s) = .ok (c :: s, [' ']) :=
  multispace0_space (by simpa using h)

theorem toNat_lt_of_isAlphanum {c : Char} (h : c.isAlphanum = true) : c.toNat < 128 := by
  have hle : c.val ≤ 'z'.val := by
    obtain hletter | hdigit := Bool.or_eq_true_iff.mp h
    · obtain hupper | hlower := Bool.or_eq_true_iff.mp hletter
      · exact UInt32.le_trans (of_decide_eq_true hupper).2 (by decide)
      · exact of_decide_eq_true (Bool.and_eq_true_iff.mp hlower).2
    · exact UInt32.le_trans (of_decide_eq_true (Bool.and_eq_true_iff.mp hdigit).2) (by decide)
  exact Nat.lt_of_le_of_lt (UInt32.le_iff_toNat_le.mp hle) (by decide)

theorem isAlphanumeric_of_isAlphanum [Alphanumeric] {c : Char} (h : c.isAlphanum = true) :
    Alphanumeric.isAlphanumeric c = true := by
  rw [Alphanumeric.isAlphanumeric_of_ascii (toNat_lt_of_isAlphanum h), h]

theorem isAlphanumeric_of_isMultispace [Alphanumeric] {c : Char} (h : isMultispace c = true) :
    Alphanumeric.isAlphanumeric c = false := by
  have hc : c ∈ [' ', '\t', '\r', '\n'] := of_decide_eq_true h
  simp only [List.mem_cons, List.not_mem_nil, or_false] at hc
  obtain rfl | rfl | rfl | rfl := hc <;>
    exact Alphanumeric.isAlphanumeric_of_ascii (by decide)

/-- Nothing is trimmed between two characters that are no white space. -/
theorem trim_of_ends {a b : Char} (ha : Text.isWhitespace a = false)
    (hb : Text.isWhitespace b = false) (s : List Char) :
    Text.trim (a :: (s ++ [b])) = a :: (s ++ [b]) := by
  rw [Text.trim, Text.trimStart, List.dropWhile_cons_of_neg (by simp [ha]), Text.trimEnd,
    List.rdropWhile_eq_self_iff]
  intro hne
  simp [hb]

/-! ### Reading -/

/-- The characters an escape stands for. An escape that is not known stands for itself. -/
def unescape (c : Char) : List Char :=
  match c with
  | 'n' => ['\n']
  | 't' => ['\t']
  | '\\' => ['\\']
  | '"' => ['"']
  | other => ['\\', other]

/-- The loop of `parse_quoted_string`: the input after the closing quote and the text, or nothing
when there is no closing quote. -/
def quotedBody : List Char → Option (List Char × List Char)
  | [] => none
  | '"' :: rest => some (rest, [])
  | '\\' :: c :: rest => (quotedBody rest).map fun r => (r.1, unescape c ++ r.2)
  | c :: rest => if c = '\\' then none else (quotedBody rest).map fun r => (r.1, c :: r.2)

/-- `parse_quoted_string`. -/
def quotedString [Combinators Char] (input : List Char) :
    Except (Err Char) (List Char × String) := do
  let (input, _) ← char '"' input
  match quotedBody input with
  | some (rest, result) => return (rest, String.ofList result)
  | none => throw (.failure ⟨input, .char⟩)

/-! ### What is left of the input -/

theorem within_multispace0 [Combinators Char] {stuck : Prop} (input : List Char) :
    Within stuck input (multispace0 input) :=
  within_takeWhile0 _ input

theorem ends_multispace0 [Combinators Char] (input : List Char) : Ends input (multispace0 input) :=
  ends_takeWhile0 _ input

theorem suffix_of_quotedBody {input rest body : List Char}
    (h : quotedBody input = some (rest, body)) : rest <:+ input := by
  induction input using quotedBody.induct generalizing rest body with
  | case1 => exact absurd h (by simp [quotedBody])
  | case2 rest' =>
    obtain ⟨rfl, -⟩ := Prod.mk.inj (Option.some.inj h)
    exact List.suffix_cons _ _
  | case3 c rest' ih =>
    rw [quotedBody] at h
    obtain ⟨⟨rest'', body'⟩, hr, heq⟩ := Option.map_eq_some_iff.mp h
    obtain ⟨rfl, -⟩ := Prod.mk.inj heq
    exact (ih hr).trans ((List.suffix_cons c rest').trans (List.suffix_cons _ _))
  | case4 rest' hquote hescape =>
    rw [quotedBody] at h
    · exact absurd h (by simp)
    all_goals assumption
  | case5 c rest' hquote hescape hslash ih =>
    rw [quotedBody, if_neg hslash] at h
    · obtain ⟨⟨rest'', body'⟩, hr, heq⟩ := Option.map_eq_some_iff.mp h
      obtain ⟨rfl, -⟩ := Prod.mk.inj heq
      exact (ih hr).trans (List.suffix_cons c rest')
    all_goals assumption

theorem within_quotedString [Combinators Char] {stuck : Prop} (input : List Char) :
    Within stuck input (quotedString input) := by
  refine (within_char '"' input).bind fun rest _ _ => ?_
  dsimp only
  cases hbody : quotedBody rest with
  | none => exact within_failure List.suffix_rfl
  | some r => exact within_ok (suffix_of_quotedBody hbody) _

theorem ends_quotedString [Combinators Char] (input : List Char) :
    Ends input (quotedString input) :=
  (within_quotedString input : Within False input (quotedString input)).ends

/-! ### Writing -/

/-- `str::replace` of a character. -/
def replaceChar (c : Char) (new s : List Char) : List Char :=
  s.flatMap fun d => if d = c then new else [d]

/-- `escape_quoted`. -/
def escapeQuoted (value : String) : String :=
  String.ofList (replaceChar '"' ['\\', '"'] (replaceChar '\\' ['\\', '\\'] value.toList))

theorem replaceChar_cons (c : Char) (new : List Char) (d : Char) (s : List Char) :
    replaceChar c new (d :: s) = (if d = c then new else [d]) ++ replaceChar c new s :=
  List.flatMap_cons

/-- **The body of a quoted string** is read up to the quote that was not escaped. -/
theorem quotedBody_escape (value rest : List Char) :
    quotedBody (replaceChar '"' ['\\', '"'] (replaceChar '\\' ['\\', '\\'] value) ++ '"' :: rest) =
      some (rest, value) := by
  induction value with
  | nil => rfl
  | cons c value ih =>
    by_cases hslash : c = '\\'
    · subst hslash
      simp [replaceChar_cons, quotedBody, unescape, ih]
    · by_cases hquote : c = '"'
      · subst hquote
        simp [replaceChar_cons, quotedBody, unescape, ih]
      · simp [replaceChar_cons, quotedBody, hslash, hquote, ih]

/-- Joined texts: the first one, and each other with the separator before it. -/
theorem toList_intercalate_cons (sep text : String) (texts : List String) :
    (sep.intercalate (text :: texts)).toList =
      text.toList ++ texts.flatMap fun t => sep.toList ++ t.toList := by
  induction texts generalizing text with
  | nil => simp
  | cons t texts ih => rw [String.intercalate_cons_cons, String.toList_append, ih]; simp

/-- What is read after an opening quote. -/
theorem quotedString_cons [Combinators Char] (body : List Char) :
    quotedString ('"' :: body) = (quotedBody body).elim (.error (.failure ⟨body, .char⟩))
      fun r => .ok (r.1, String.ofList r.2) := by
  rw [quotedString, char_cons]
  dsimp only [bind, Except.bind]
  cases quotedBody body <;> rfl

/-- **An escaped text in quotes** is read back, and nothing after it. -/
theorem quotedString_escapeQuoted [Combinators Char] (value : String) (rest : List Char) :
    quotedString ('"' :: ((escapeQuoted value).toList ++ '"' :: rest)) = .ok (rest, value) := by
  rw [quotedString_cons, escapeQuoted, String.toList_ofList, quotedBody_escape, Option.elim_some,
    String.ofList_toList]

/-! ### Text that is not escaped -/

/-- A text that stands for itself between quotes: it has no quote, and no backslash of an escape that
is known. -/
def standsForItself : List Char → Bool
  | [] => true
  | '"' :: _ => false
  | '\\' :: c :: s => decide (c ∉ ['n', 't', '\\', '"']) && standsForItself s
  | c :: s => decide (c ≠ '\\') && standsForItself s

theorem unescape_of_notMem {c : Char} (h : c ∉ ['n', 't', '\\', '"']) : unescape c = ['\\', c] := by
  simp only [List.mem_cons, List.not_mem_nil, or_false, not_or] at h
  unfold unescape
  split <;> simp_all

theorem length_unescape_of_mem {c : Char} (h : c ∈ ['n', 't', '\\', '"']) :
    (unescape c).length = 1 := by
  simp only [List.mem_cons, List.not_mem_nil, or_false] at h
  obtain rfl | rfl | rfl | rfl := h <;> rfl

/-- Such a text is read back, and nothing after it. -/
theorem quotedBody_of_standsForItself {s : List Char} (h : standsForItself s = true)
    (rest : List Char) : quotedBody (s ++ '"' :: rest) = some (rest, s) := by
  induction s using standsForItself.induct with
  | case1 => rfl
  | case2 s => cases h
  | case3 c s ih =>
    rw [standsForItself, Bool.and_eq_true, decide_eq_true_eq] at h
    rw [List.cons_append, List.cons_append, quotedBody, ih h.2, unescape_of_notMem h.1]
    rfl
  | case4 c s hquote hescape ih =>
    rw [standsForItself, Bool.and_eq_true, decide_eq_true_eq] at h
    · rw [List.cons_append, quotedBody, if_neg h.1, ih h.2]
      · rfl
      · exact hquote
      · exact fun _ _ hc _ => h.1 hc
    · exact hquote
    · exact hescape

/-- Where there is no backslash, a text is read as it stands. -/
theorem quotedBody_subset {s rest body : List Char} (hs : '\\' ∉ s)
    (h : quotedBody s = some (rest, body)) : body ⊆ s := by
  induction s using quotedBody.induct generalizing rest body with
  | case1 => cases h
  | case2 s =>
    cases h
    exact List.nil_subset _
  | case3 c s ih => exact absurd List.mem_cons_self hs
  | case4 s hquote hescape => exact absurd List.mem_cons_self hs
  | case5 c s hquote hescape hslash ih =>
    rw [quotedBody, if_neg hslash] at h
    · obtain ⟨⟨rest', body'⟩, hr, heq⟩ := Option.map_eq_some_iff.mp h
      obtain ⟨rfl, rfl⟩ := Prod.mk.inj heq
      exact List.cons_subset_cons c (ih (fun hmem => hs (List.mem_cons_of_mem c hmem)) hr)
    all_goals assumption

/-- **A text that is read with all of itself at the end** stands for itself, if no backslash follows
it. -/
theorem standsForItself_of_quotedBody {s t rest body : List Char} (ht : '\\' ∉ t)
    (h : quotedBody (s ++ '"' :: t) = some (rest, body)) (hs : s <:+ body) :
    standsForItself s = true ∧ body = s := by
  induction s using standsForItself.induct generalizing rest body with
  | case1 =>
    cases h
    exact ⟨rfl, rfl⟩
  | case2 s =>
    cases h
    exact absurd (List.suffix_nil.mp hs) (List.cons_ne_nil _ _)
  | case3 c s ih =>
    rw [List.cons_append, List.cons_append, quotedBody] at h
    obtain ⟨⟨rest', body'⟩, hr, heq⟩ := Option.map_eq_some_iff.mp h
    obtain ⟨rfl, rfl⟩ := Prod.mk.inj heq
    dsimp only at hs ⊢
    have hlength := hs.length_le
    have hsub (h : (unescape c).length ≤ 2) : s <:+ body' := by
      refine List.suffix_of_suffix_length_le (((List.suffix_cons c s).trans
        (List.suffix_cons '\\' _)).trans hs) (List.suffix_append _ _) ?_
      rw [List.length_append, List.length_cons, List.length_cons] at hlength
      omega
    rw [List.length_append, List.length_cons, List.length_cons] at hlength
    by_cases hc : c ∈ ['n', 't', '\\', '"']
    · -- the escape is shorter than what it is written as
      have hshort := length_unescape_of_mem hc
      obtain ⟨-, rfl⟩ := ih hr (hsub (by omega))
      omega
    · have hsame := unescape_of_notMem hc
      obtain ⟨hself, rfl⟩ := ih hr (hsub (by rw [hsame]; rfl))
      rw [standsForItself, hself, decide_eq_true hc, hsame]
      exact ⟨rfl, rfl⟩
  | case4 c s hquote hescape ih =>
    by_cases hc : c = '\\'
    · -- the backslash takes the quote, and what is read ends with something else
      subst hc
      obtain rfl : s = [] := by
        cases s with
        | nil => rfl
        | cons d s => exact absurd rfl (hescape d s rfl)
      obtain ⟨⟨rest', body'⟩, hr, heq⟩ := Option.map_eq_some_iff.mp h
      obtain ⟨rfl, rfl⟩ := Prod.mk.inj heq
      have hmem : '\\' ∈ '"' :: body' := hs.subset List.mem_cons_self
      rcases List.mem_cons.mp hmem with heq | hmem
      · exact absurd heq (by decide)
      · exact absurd (quotedBody_subset ht hr hmem) ht
    · rw [List.cons_append, quotedBody, if_neg hc] at h
      · obtain ⟨⟨rest', body'⟩, hr, heq⟩ := Option.map_eq_some_iff.mp h
        obtain ⟨rfl, rfl⟩ := Prod.mk.inj heq
        dsimp only at hs ⊢
        have hlength := hs.length_le
        rw [List.length_cons, List.length_cons] at hlength
        obtain ⟨hself, rfl⟩ := ih hr (List.suffix_of_suffix_length_le
          ((List.suffix_cons c s).trans hs) (List.suffix_cons c body') (by omega))
        rw [standsForItself, hself, decide_eq_true hc]
        · exact ⟨rfl, rfl⟩
        · exact hquote
        · exact hescape
      · exact hquote
      · exact fun _ _ hslash _ => hc hslash

end Aniani
