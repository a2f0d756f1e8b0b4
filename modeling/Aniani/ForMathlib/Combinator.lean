import Mathlib.Data.List.Basic
import Mathlib.Data.List.TakeWhile

/-!
# Parser combinators

A parser takes a list of tokens and gives the rest of it with a value, or an error. An error says
where it arose. After a plain error another parser is tried on the same input; a failure ends the
whole parse, and so does a parser that never returns.

The combinators are a class: what is asked of each is a law, and any implementation will do.

## Main definitions

* `IResult`, `Err` — results
* `Ends` — what is left is an end of the input
* `Within`, `Takes` — so is where an error arose, and something was taken
* `Combinators` — the combinators and their laws
* `Combinators.ofLists` — an implementation

## Main results

* `Combinators.takeWhile0_append`, `Combinators.takeWhile1_append` — a run of tokens that pass a test
* `Combinators.isError_alt` — an error when all alternatives give one
* `Ends.bind`, `Combinators.ends_alt` — what is left of the input
* `Within.bind`, `Combinators.within_alt`, `Combinators.within_separatedList0` — where errors arise
-/

namespace Combinator

/-- What an error says it is. -/
inductive ErrorKind where
  | tag | char | takeWhile1 | separatedList | fail | verify | float | digit | tooLarge
  deriving DecidableEq

/-- The input that was left where an error arose. -/
structure ParseError (τ : Type) where
  input : List τ
  kind : ErrorKind
  deriving DecidableEq

/-- How a parser does not succeed. -/
inductive Err (τ : Type) where
  /-- Another alternative may be tried. -/
  | error (e : ParseError τ)
  /-- No other alternative is tried. -/
  | failure (e : ParseError τ)
  /-- The parser panics, or never returns. -/
  | stuck
  deriving DecidableEq

/-- The rest of the input and a value, or an error. -/
abbrev IResult (τ α : Type) := Except (Err τ) (List τ × α)

variable {τ α β : Type}

/-- A plain error. -/
def IsError (r : IResult τ α) : Prop := ∃ e, r = .error (.error e)

@[simp]
theorem isError_error (e : ParseError τ) : IsError (.error (.error e) : IResult τ α) := ⟨e, rfl⟩

@[simp]
theorem not_isError_ok (r : List τ × α) : ¬ IsError (.ok r : IResult τ α) := by
  rintro ⟨e, he⟩
  exact absurd he (by simp)

theorem isError_bind {r : Except (Err τ) (List τ × α)} (h : IsError r)
    (f : List τ × α → Except (Err τ) (List τ × β)) : IsError (Except.bind r f) := by
  obtain ⟨e, rfl⟩ := h
  exact isError_error e

/-- When one step after another succeeds, so does each. -/
theorem exists_of_bind_eq_ok {ε α β : Type} {x : Except ε α} {f : α → Except ε β} {b : β}
    (h : x >>= f = .ok b) : ∃ a, x = .ok a ∧ f a = .ok b := by
  cases x with
  | error e => exact absurd h (by simp [bind, Except.bind])
  | ok a => exact ⟨a, rfl, h⟩

/-! ### What is left of the input -/

/-- What is left after a result is an end of the input. -/
def Ends (s : List τ) (r : IResult τ α) : Prop := ∀ rest a, r = .ok (rest, a) → rest <:+ s

theorem ends_error (s : List τ) (e : Err τ) : Ends s (.error e : IResult τ α) := by
  intro rest a h
  exact absurd h (by simp)

theorem ends_ok {s rest : List τ} (h : rest <:+ s) (a : α) :
    Ends s (.ok (rest, a) : IResult τ α) := by
  intro rest' a' heq
  obtain ⟨rfl, rfl⟩ := Prod.mk.inj (Except.ok.inj heq)
  exact h

theorem Ends.trans {s s' : List τ} {r : IResult τ α} (h : Ends s' r) (hs : s' <:+ s) : Ends s r :=
  fun rest a heq => (h rest a heq).trans hs

/-- One parser after another. -/
theorem Ends.bind {s : List τ} {r : Except (Err τ) (List τ × α)}
    {f : List τ × α → Except (Err τ) (List τ × β)} (h : Ends s r)
    (hf : ∀ rest a, Ends rest (f (rest, a))) :
    Ends s (Except.bind r f) := by
  cases r with
  | error e => exact ends_error s e
  | ok r => exact (hf r.1 r.2).trans (h r.1 r.2 rfl)

/-! ### Where errors arise -/

/-- What is left after a result is an end of the input, and so is what was left where an error arose.
The parser is stuck only where `stuck` says so. -/
structure Within (stuck : Prop) (s : List τ) (r : IResult τ α) : Prop where
  ends : Ends s r
  suffix : ∀ e, r = .error (.error e) ∨ r = .error (.failure e) → e.input <:+ s
  stuck : r = .error .stuck → stuck

section Within

variable {stuck : Prop} {s : List τ} {r : IResult τ α}

theorem within_ok {rest : List τ} (h : rest <:+ s) (a : α) :
    Within stuck s (.ok (rest, a) : IResult τ α) :=
  ⟨ends_ok h a, fun _ he => by simp at he, fun he => by cases he⟩

theorem within_error {e : ParseError τ} (h : e.input <:+ s) :
    Within stuck s (.error (.error e) : IResult τ α) := by
  refine ⟨ends_error s _, fun e' he => ?_, fun he => by cases he⟩
  rcases he with he | he
  · cases he
    exact h
  · cases he

theorem within_failure {e : ParseError τ} (h : e.input <:+ s) :
    Within stuck s (.error (.failure e) : IResult τ α) := by
  refine ⟨ends_error s _, fun e' he => ?_, fun he => by cases he⟩
  rcases he with he | he
  · cases he
  · cases he
    exact h

theorem within_stuck (h : stuck) : Within stuck s (.error .stuck : IResult τ α) :=
  ⟨ends_error s _, fun _ he => by simp at he, fun _ => h⟩

theorem Within.trans {s' : List τ} (h : Within stuck s' r) (hs : s' <:+ s) : Within stuck s r :=
  ⟨h.ends.trans hs, fun e he => (h.suffix e he).trans hs, h.stuck⟩

theorem Within.mono {stuck' : Prop} (h : Within stuck s r) (hs : stuck → stuck') :
    Within stuck' s r :=
  ⟨h.ends, h.suffix, fun he => hs (h.stuck he)⟩

/-- The same error from another parser. -/
theorem Within.of_error {e : Err τ} (h : Within stuck s (.error e : IResult τ α)) :
    Within stuck s (.error e : IResult τ β) := by
  cases e with
  | error e => exact within_error (h.suffix e (.inl rfl))
  | failure e => exact within_failure (h.suffix e (.inr rfl))
  | stuck => exact within_stuck (h.stuck rfl)

/-- One parser after another. -/
theorem Within.bind {r : Except (Err τ) (List τ × α)}
    {f : List τ × α → Except (Err τ) (List τ × β)} (h : Within stuck s r)
    (hf : ∀ rest a, rest <:+ s → Within stuck rest (f (rest, a))) :
    Within stuck s (Except.bind r f) := by
  cases r with
  | error e => exact h.of_error
  | ok r =>
    have hrest := h.ends r.1 r.2 rfl
    exact (hf r.1 r.2 hrest).trans hrest

/-- An item in front of others. -/
theorem within_map_cons {r : IResult τ (List α)} (h : Within stuck s r) (a : α) :
    Within stuck s (r.map fun r => (r.1, a :: r.2)) := by
  cases r with
  | error e => exact h.of_error
  | ok r => exact within_ok (h.ends r.1 r.2 rfl) _

end Within

/-- `Within`, and a parser that succeeds has taken something. -/
structure Takes (stuck : Prop) (s : List τ) (r : IResult τ α) : Prop extends Within stuck s r where
  lt : ∀ rest a, r = .ok (rest, a) → rest.length < s.length

/-- One parser that takes something, and another one. -/
theorem Takes.bind {stuck : Prop} {s : List τ} {r : Except (Err τ) (List τ × α)}
    {f : List τ × α → Except (Err τ) (List τ × β)} (h : Takes stuck s r)
    (hf : ∀ rest a, rest <:+ s → Within stuck rest (f (rest, a))) :
    Takes stuck s (Except.bind r f) where
  toWithin := h.toWithin.bind hf
  lt rest b heq := by
    obtain ⟨a, ha, hfa⟩ := exists_of_bind_eq_ok heq
    have hrest := hf a.1 a.2 (h.ends a.1 a.2 ha)
    exact (hrest.ends rest b hfa).length_le.trans_lt (h.lt a.1 a.2 ha)

/-- The combinators of a parser library. -/
class Combinators (τ : Type) where
  /-- These tokens. -/
  tag : List τ → List τ → IResult τ (List τ)
  /-- This token. -/
  char : τ → List τ → IResult τ τ
  /-- As many tokens as pass a test. -/
  takeWhile0 : (τ → Bool) → List τ → IResult τ (List τ)
  /-- As many tokens as pass a test, one at least. -/
  takeWhile1 : (τ → Bool) → List τ → IResult τ (List τ)
  /-- A parser, and then a function. -/
  map {α β : Type} : (List τ → IResult τ α) → (α → β) → List τ → IResult τ β
  /-- A parser whose errors are failures. -/
  cut {α : Type} : (List τ → IResult τ α) → List τ → IResult τ α
  /-- The first parser that gives no plain error. -/
  alt {α : Type} : List (List τ → IResult τ α) → List τ → IResult τ α
  /-- Items, with separators in between. -/
  separatedList0 {α β : Type} :
    (List τ → IResult τ β) → (List τ → IResult τ α) → List τ → IResult τ (List α)
  /-- The separators and items after an item. -/
  separatedMore {α β : Type} :
    (List τ → IResult τ β) → (List τ → IResult τ α) → List τ → IResult τ (List α)
  tag_append (t s : List τ) : tag t (t ++ s) = .ok (s, t)
  tag_of_not_prefix {t s : List τ} (h : ¬ t <+: s) : tag t s = .error (.error ⟨s, .tag⟩)
  char_cons (c : τ) (s : List τ) : char c (c :: s) = .ok (s, c)
  char_of_notMem_head {c : τ} {s : List τ} (h : c ∉ s.head?) :
    char c s = .error (.error ⟨s, .char⟩)
  takeWhile0_eq (p : τ → Bool) (s : List τ) :
    takeWhile0 p s = .ok (s.dropWhile p, s.takeWhile p)
  takeWhile1_eq {p : τ → Bool} {s : List τ} (h : s.takeWhile p ≠ []) :
    takeWhile1 p s = .ok (s.dropWhile p, s.takeWhile p)
  takeWhile1_of_nil {p : τ → Bool} {s : List τ} (h : s.takeWhile p = []) :
    takeWhile1 p s = .error (.error ⟨s, .takeWhile1⟩)
  map_eq {α β : Type} (p : List τ → IResult τ α) (f : α → β) (s : List τ) :
    map p f s = (p s).map fun r => (r.1, f r.2)
  cut_of_error {α : Type} {p : List τ → IResult τ α} {s : List τ} {e : ParseError τ}
    (h : p s = .error (.error e)) : cut p s = .error (.failure e)
  cut_of_not_error {α : Type} {p : List τ → IResult τ α} {s : List τ} (h : ¬ IsError (p s)) :
    cut p s = p s
  alt_singleton {α : Type} (p : List τ → IResult τ α) (s : List τ) : alt [p] s = p s
  alt_of_error {α : Type} {p q : List τ → IResult τ α} {ps : List (List τ → IResult τ α)}
    {s : List τ} (h : IsError (p s)) : alt (p :: q :: ps) s = alt (q :: ps) s
  alt_of_not_error {α : Type} {p : List τ → IResult τ α} {ps : List (List τ → IResult τ α)}
    {s : List τ} (h : ¬ IsError (p s)) : alt (p :: ps) s = p s
  separatedList0_nil {α β : Type} {sep : List τ → IResult τ β} {p : List τ → IResult τ α}
    {s : List τ} (h : IsError (p s)) : separatedList0 sep p s = .ok (s, [])
  separatedList0_error {α β : Type} {sep : List τ → IResult τ β} {p : List τ → IResult τ α}
    {s : List τ} {e : Err τ} (h : p s = .error e) (he : ∀ e', e ≠ .error e') :
    separatedList0 sep p s = .error e
  separatedList0_cons {α β : Type} {sep : List τ → IResult τ β} {p : List τ → IResult τ α}
    {s s' : List τ} {a : α} (h : p s = .ok (s', a)) :
    separatedList0 sep p s = (separatedMore sep p s').map fun r => (r.1, a :: r.2)
  separatedMore_nil {α β : Type} {sep : List τ → IResult τ β} {p : List τ → IResult τ α}
    {s : List τ} (h : IsError (sep s) ∨ ∃ r, sep s = .ok r ∧ IsError (p r.1)) :
    separatedMore sep p s = .ok (s, [])
  separatedMore_error {α β : Type} {sep : List τ → IResult τ β} {p : List τ → IResult τ α}
    {s : List τ} {e : Err τ} (h : sep s = .error e ∨ ∃ r, sep s = .ok r ∧ p r.1 = .error e)
    (he : ∀ e', e ≠ .error e') : separatedMore sep p s = .error e
  separatedMore_cons {α β : Type} {sep : List τ → IResult τ β} {p : List τ → IResult τ α}
    {s s' s'' : List τ} {b : β} {a : α} (hsep : sep s = .ok (s', b)) (h : p s' = .ok (s'', a))
    (hlen : s''.length < s.length) :
    separatedMore sep p s = (separatedMore sep p s'').map fun r => (r.1, a :: r.2)
  separatedMore_of_length_eq {α β : Type} {sep : List τ → IResult τ β}
    {p : List τ → IResult τ α} {s s' s'' : List τ} {b : β} {a : α} (hsep : sep s = .ok (s', b))
    (h : p s' = .ok (s'', a)) (hlen : s''.length = s.length) :
    separatedMore sep p s = .error (.error ⟨s, .separatedList⟩)

namespace Combinators

/-! ### Rules -/

section Rules

variable [Combinators τ]

/-- A run of tokens that pass a test, with what stops it. -/
theorem takeWhile0_append {p : τ → Bool} {l s : List τ} (hl : ∀ a ∈ l, p a = true)
    (hs : ∀ a ∈ s.head?, p a = false) : takeWhile0 p (l ++ s) = .ok (s, l) := by
  have hrun : s.takeWhile p = [] ∧ s.dropWhile p = s := by
    cases s with
    | nil => exact ⟨rfl, rfl⟩
    | cons a s => simp [hs a rfl]
  rw [takeWhile0_eq, List.takeWhile_append_of_pos hl, List.dropWhile_append_of_pos hl, hrun.1,
    hrun.2, List.append_nil]

/-- A run of tokens that pass a test, one at least, with what stops it. -/
theorem takeWhile1_append {p : τ → Bool} {l s : List τ} (hne : l ≠ [])
    (hl : ∀ a ∈ l, p a = true) (hs : ∀ a ∈ s.head?, p a = false) :
    takeWhile1 p (l ++ s) = .ok (s, l) := by
  have hrun := takeWhile0_append hl hs
  rw [takeWhile0_eq] at hrun
  obtain ⟨hdrop, htake⟩ := Prod.mk.inj (Except.ok.inj hrun)
  rw [takeWhile1_eq (by rwa [htake]), hdrop, htake]

/-- A run that was taken is as long as it can be. -/
theorem takeWhile1_eq_ok {p : τ → Bool} {s rest l : List τ} (h : takeWhile1 p s = .ok (rest, l)) :
    l ≠ [] ∧ (∀ a ∈ l, p a = true) ∧ (∀ a ∈ rest.head?, p a = false) ∧ s = l ++ rest := by
  by_cases hnil : s.takeWhile p = []
  · rw [takeWhile1_of_nil hnil] at h
    cases h
  · rw [takeWhile1_eq hnil] at h
    cases h
    refine ⟨hnil, fun a ha => List.mem_takeWhile_imp ha, fun a ha => ?_,
      List.takeWhile_append_dropWhile.symm⟩
    have hstop := List.head?_dropWhile_not p s
    rw [show (s.dropWhile p).head? = some a from ha] at hstop
    exact hstop

theorem isError_tag {t s : List τ} (h : ¬ t <+: s) : IsError (tag t s) := ⟨_, tag_of_not_prefix h⟩

theorem isError_char {c : τ} {s : List τ} (h : c ∉ s.head?) : IsError (char c s) :=
  ⟨_, char_of_notMem_head h⟩

theorem isError_map {p : List τ → IResult τ α} {f : α → β} {s : List τ} (h : IsError (p s)) :
    IsError (map p f s) := by
  obtain ⟨e, he⟩ := h
  exact ⟨e, by rw [map_eq, he]; rfl⟩

theorem map_of_ok {p : List τ → IResult τ α} {f : α → β} {s s' : List τ} {a : α}
    (h : p s = .ok (s', a)) : map p f s = .ok (s', f a) := by
  rw [map_eq, h]
  rfl

theorem alt_of_ok {p : List τ → IResult τ α} {ps : List (List τ → IResult τ α)} {s : List τ}
    {r : List τ × α} (h : p s = .ok r) : alt (p :: ps) s = .ok r := by
  rw [alt_of_not_error (h ▸ not_isError_ok r), h]

/-- Some alternative gives the result. -/
theorem exists_alt_eq {ps : List (List τ → IResult τ α)} (hne : ps ≠ []) (s : List τ) :
    ∃ p ∈ ps, alt ps s = p s := by
  induction ps with
  | nil => exact absurd rfl hne
  | cons p ps ih =>
    cases ps with
    | nil => exact ⟨p, List.mem_cons_self, alt_singleton p s⟩
    | cons q ps =>
      by_cases hp : IsError (p s)
      · obtain ⟨r, hr, heq⟩ := ih (List.cons_ne_nil q ps)
        exact ⟨r, List.mem_cons_of_mem _ hr, (alt_of_error hp).trans heq⟩
      · exact ⟨p, List.mem_cons_self, alt_of_not_error hp⟩

/-- When all alternatives give an error, so do they together. -/
theorem isError_alt {ps : List (List τ → IResult τ α)} {s : List τ} (hne : ps ≠ [])
    (h : ∀ p ∈ ps, IsError (p s)) : IsError (alt ps s) := by
  obtain ⟨p, hp, heq⟩ := exists_alt_eq hne s
  exact heq ▸ h p hp

/-- The first of some alternatives, each of which is a word, that the input starts with. -/
theorem alt_find [DecidableEq τ] {ι : Type*} {table : List ι} {word : ι → List τ}
    {p : ι → List τ → IResult τ α} {value : ι → α}
    (hok : ∀ i s, p i (word i ++ s) = .ok (s, value i))
    (herror : ∀ i s, ¬ word i <+: s → IsError (p i s)) {s : List τ} {entry : ι}
    (hfind : table.find? (fun i => (word i).isPrefixOf s) = some entry) :
    alt (table.map p) s = .ok (s.drop (word entry).length, value entry) := by
  induction table with
  | nil => exact absurd hfind (by simp)
  | cons i table ih =>
    rw [List.map_cons]
    by_cases hprefix : (word i).isPrefixOf s
    · rw [List.find?_cons, hprefix] at hfind
      obtain rfl := Option.some.inj hfind
      obtain ⟨rest, rfl⟩ := List.isPrefixOf_iff_prefix.mp hprefix
      rw [alt_of_ok (hok i rest), List.drop_left]
    · rw [List.find?_cons, Bool.eq_false_iff.mpr hprefix] at hfind
      cases table with
      | nil => exact absurd hfind (by simp)
      | cons next table =>
        rw [List.map_cons, alt_of_error (herror i s (mt List.isPrefixOf_iff_prefix.mpr hprefix)),
          ← List.map_cons, ih hfind]

/-- Words that stand for values. -/
theorem alt_words [DecidableEq τ] {ι : Type*} {table : List ι} (word : ι → List τ) (value : ι → β)
    {s : List τ} {entry : ι}
    (hfind : table.find? (fun i => (word i).isPrefixOf s) = some entry) :
    alt (table.map fun i => map (tag (word i)) fun _ => value i) s =
      .ok (s.drop (word entry).length, value entry) :=
  alt_find (fun i s => map_of_ok (tag_append (word i) s)) (fun _ _ h => isError_map (isError_tag h))
    hfind

/-- The first of some words that the input starts with. -/
theorem alt_tags [DecidableEq τ] {words : List (List τ)} (hne : words ≠ []) (s : List τ) :
    (∀ word, words.find? (·.isPrefixOf s) = some word →
      alt (words.map tag) s = .ok (s.drop word.length, word)) ∧
    (words.find? (·.isPrefixOf s) = none → IsError (alt (words.map tag) s)) := by
  constructor
  · intro found hfound
    exact alt_find tag_append (fun _ _ => isError_tag) hfound
  · intro hnone
    refine isError_alt (by simpa using hne) fun p hp => ?_
    obtain ⟨word, hword, rfl⟩ := List.mem_map.mp hp
    exact isError_tag (mt List.isPrefixOf_iff_prefix.mpr (List.find?_eq_none.mp hnone word hword))

theorem ends_tag (t s : List τ) : Ends s (tag t s) := by
  by_cases h : t <+: s
  · obtain ⟨rest, rfl⟩ := h
    rw [tag_append]
    exact ends_ok (List.suffix_append t rest) t
  · rw [ tag_of_not_prefix h]
    exact ends_error s _

theorem ends_takeWhile0 (p : τ → Bool) (s : List τ) : Ends s (takeWhile0 p s) := by
  rw [takeWhile0_eq]
  exact ends_ok (List.dropWhile_suffix p) _

theorem ends_takeWhile1 (p : τ → Bool) (s : List τ) : Ends s (takeWhile1 p s) := by
  by_cases h : s.takeWhile p = []
  · rw [takeWhile1_of_nil h]
    exact ends_error s _
  · rw [takeWhile1_eq h]
    exact ends_ok (List.dropWhile_suffix p) _

theorem ends_map {p : List τ → IResult τ α} {s : List τ} (h : Ends s (p s)) (f : α → β) :
    Ends s (map p f s) := by
  rw [map_eq]
  cases hp : p s with
  | error e => exact ends_error s e
  | ok r => exact ends_ok (h r.1 r.2 hp) _

theorem ends_alt {ps : List (List τ → IResult τ α)} {s : List τ} (hne : ps ≠ [])
    (h : ∀ p ∈ ps, Ends s (p s)) : Ends s (alt ps s) := by
  obtain ⟨p, hp, heq⟩ := exists_alt_eq hne s
  exact heq ▸ h p hp

section Errors

variable {stuck : Prop}

theorem within_tag (t s : List τ) : Within stuck s (tag t s) := by
  by_cases h : t <+: s
  · obtain ⟨rest, rfl⟩ := h
    rw [tag_append]
    exact within_ok (List.suffix_append t rest) t
  · rw [ tag_of_not_prefix h]
    exact within_error List.suffix_rfl

theorem within_char (c : τ) (s : List τ) : Within stuck s (char c s) := by
  by_cases h : c ∈ s.head?
  · rw [List.eq_cons_of_mem_head? h, char_cons]
    exact within_ok (List.suffix_cons c s.tail) c
  · rw [char_of_notMem_head h]
    exact within_error List.suffix_rfl

theorem within_takeWhile0 (p : τ → Bool) (s : List τ) : Within stuck s (takeWhile0 p s) := by
  rw [takeWhile0_eq]
  exact within_ok (List.dropWhile_suffix p) _

theorem within_takeWhile1 (p : τ → Bool) (s : List τ) : Within stuck s (takeWhile1 p s) := by
  by_cases h : s.takeWhile p = []
  · rw [takeWhile1_of_nil h]
    exact within_error List.suffix_rfl
  · rw [takeWhile1_eq h]
    exact within_ok (List.dropWhile_suffix p) _

theorem within_map {p : List τ → IResult τ α} {s : List τ} (h : Within stuck s (p s)) (f : α → β) :
    Within stuck s (map p f s) := by
  rw [map_eq]
  cases hp : p s with
  | error e => exact (hp ▸ h : Within stuck s (.error e : IResult τ α)).of_error
  | ok r => exact within_ok (h.ends r.1 r.2 hp) _

theorem within_cut {p : List τ → IResult τ α} {s : List τ} (h : Within stuck s (p s)) :
    Within stuck s (cut p s) := by
  by_cases he : IsError (p s)
  · obtain ⟨e, he⟩ := he
    rw [cut_of_error he]
    exact within_failure (h.suffix e (.inl he))
  · rwa [cut_of_not_error he]

theorem within_alt {ps : List (List τ → IResult τ α)} {s : List τ} (hne : ps ≠ [])
    (h : ∀ p ∈ ps, Within stuck s (p s)) : Within stuck s (alt ps s) := by
  obtain ⟨p, hp, heq⟩ := exists_alt_eq hne s
  exact heq ▸ h p hp

section Separated

variable {sep : List τ → IResult τ β} {p : List τ → IResult τ α} {s : List τ}

theorem within_separatedMore (hsep : ∀ s', s' <:+ s → Within stuck s' (sep s'))
    (hp : ∀ s', s' <:+ s → Within stuck s' (p s')) : Within stuck s (separatedMore sep p s) := by
  induction hlen : s.length using Nat.strong_induction_on generalizing s with
  | h n ih =>
    have hfirst := hsep s List.suffix_rfl
    cases hs : sep s with
    | error e =>
      rw [hs] at hfirst
      by_cases he : ∃ e', e = .error e'
      · obtain ⟨e', rfl⟩ := he
        rw [separatedMore_nil (.inl ⟨e', hs⟩)]
        exact within_ok List.suffix_rfl _
      · rw [separatedMore_error (.inl hs) (not_exists.mp he)]
        exact hfirst.of_error
    | ok r =>
      have hrest : r.1 <:+ s := hfirst.ends r.1 r.2 hs
      have hitem := hp r.1 hrest
      cases ha : p r.1 with
      | error e =>
        rw [ha] at hitem
        by_cases he : ∃ e', e = .error e'
        · obtain ⟨e', rfl⟩ := he
          rw [separatedMore_nil (.inr ⟨r, hs, e', ha⟩)]
          exact within_ok List.suffix_rfl _
        · rw [separatedMore_error (.inr ⟨r, hs, ha⟩) (not_exists.mp he)]
          exact hitem.of_error.trans hrest
      | ok r' =>
        have hrest' : r'.1 <:+ s := (hitem.ends r'.1 r'.2 ha).trans hrest
        -- an item that takes nothing is an error of its own
        rcases hrest'.length_le.eq_or_lt with heq | hlt
        · rw [separatedMore_of_length_eq hs ha heq]
          exact within_error List.suffix_rfl
        · rw [separatedMore_cons hs ha hlt]
          refine (within_map_cons (ih r'.1.length (hlen ▸ hlt) (fun s' h => hsep s' (h.trans hrest'))
            (fun s' h => hp s' (h.trans hrest')) rfl) r'.2).trans hrest'

theorem within_separatedList0 (hsep : ∀ s', s' <:+ s → Within stuck s' (sep s'))
    (hp : ∀ s', s' <:+ s → Within stuck s' (p s')) : Within stuck s (separatedList0 sep p s) := by
  have hfirst := hp s List.suffix_rfl
  cases hs : p s with
  | error e =>
    rw [hs] at hfirst
    by_cases he : ∃ e', e = .error e'
    · obtain ⟨e', rfl⟩ := he
      rw [separatedList0_nil ⟨e', hs⟩]
      exact within_ok List.suffix_rfl _
    · rw [separatedList0_error hs (not_exists.mp he)]
      exact hfirst.of_error
  | ok r =>
    have hrest : r.1 <:+ s := hfirst.ends r.1 r.2 hs
    rw [separatedList0_cons hs]
    exact (within_map_cons (within_separatedMore (fun s' h => hsep s' (h.trans hrest))
      fun s' h => hp s' (h.trans hrest)) r.2).trans hrest

/-- What holds of every item that is read holds of all the items of a list. -/
theorem forall_mem_separatedMore {P : α → Prop} (hsep : ∀ s', Within stuck s' (sep s'))
    (hp : ∀ s', Within stuck s' (p s')) (hP : ∀ s' rest a, p s' = .ok (rest, a) → P a)
    {rest : List τ} {l : List α} (h : separatedMore sep p s = .ok (rest, l)) : ∀ a ∈ l, P a := by
  induction hlen : s.length using Nat.strong_induction_on generalizing s l with
  | h n ih =>
    cases hs : sep s with
    | error e =>
      by_cases he : ∃ e', e = .error e'
      · obtain ⟨e', rfl⟩ := he
        rw [separatedMore_nil (.inl ⟨e', hs⟩)] at h
        cases h
        exact List.forall_mem_nil _
      · rw [separatedMore_error (.inl hs) (not_exists.mp he)] at h
        cases h
    | ok r =>
      have hrest : r.1 <:+ s := (hsep s).ends r.1 r.2 hs
      cases ha : p r.1 with
      | error e =>
        by_cases he : ∃ e', e = .error e'
        · obtain ⟨e', rfl⟩ := he
          rw [separatedMore_nil (.inr ⟨r, hs, e', ha⟩)] at h
          cases h
          exact List.forall_mem_nil _
        · rw [separatedMore_error (.inr ⟨r, hs, ha⟩) (not_exists.mp he)] at h
          cases h
      | ok r' =>
        have hrest' : r'.1 <:+ s := ((hp r.1).ends r'.1 r'.2 ha).trans hrest
        rcases hrest'.length_le.eq_or_lt with heq | hlt
        · rw [separatedMore_of_length_eq hs ha heq] at h
          cases h
        · rw [separatedMore_cons hs ha hlt] at h
          cases hmore : separatedMore sep p r'.1 with
          | error e =>
            rw [hmore] at h
            cases h
          | ok more =>
            rw [hmore] at h
            cases h
            exact List.forall_mem_cons.mpr
              ⟨hP r.1 r'.1 r'.2 ha, ih r'.1.length (hlen ▸ hlt) hmore rfl⟩

theorem forall_mem_separatedList0 {P : α → Prop} (hsep : ∀ s', Within stuck s' (sep s'))
    (hp : ∀ s', Within stuck s' (p s')) (hP : ∀ s' rest a, p s' = .ok (rest, a) → P a)
    {rest : List τ} {l : List α} (h : separatedList0 sep p s = .ok (rest, l)) : ∀ a ∈ l, P a := by
  cases hs : p s with
  | error e =>
    by_cases he : ∃ e', e = .error e'
    · obtain ⟨e', rfl⟩ := he
      rw [separatedList0_nil ⟨e', hs⟩] at h
      cases h
      exact List.forall_mem_nil _
    · rw [separatedList0_error hs (not_exists.mp he)] at h
      cases h
  | ok r =>
    rw [separatedList0_cons hs] at h
    cases hmore : separatedMore sep p r.1 with
    | error e =>
      rw [hmore] at h
      cases h
    | ok more =>
      rw [hmore] at h
      cases h
      exact List.forall_mem_cons.mpr
        ⟨hP s r.1 r.2 hs, forall_mem_separatedMore hsep hp hP hmore⟩

end Separated

end Errors

theorem takes_tag {stuck : Prop} {t : List τ} (ht : t ≠ []) (s : List τ) :
    Takes stuck s (tag t s) where
  toWithin := within_tag t s
  lt rest a heq := by
    by_cases h : t <+: s
    · obtain ⟨rest', rfl⟩ := h
      rw [tag_append] at heq
      cases heq
      rw [List.length_append]
      exact Nat.lt_add_of_pos_left (List.length_pos_iff.mpr ht)
    · rw [ tag_of_not_prefix h] at heq
      cases heq

theorem takes_char {stuck : Prop} (c : τ) (s : List τ) : Takes stuck s (char c s) where
  toWithin := within_char c s
  lt rest a heq := by
    by_cases h : c ∈ s.head?
    · rw [List.eq_cons_of_mem_head? h, char_cons] at heq
      cases heq
      rw [List.eq_cons_of_mem_head? h]
      exact Nat.lt_succ_self _
    · rw [char_of_notMem_head h] at heq
      cases heq

theorem takes_alt {stuck : Prop} {ps : List (List τ → IResult τ α)} {s : List τ} (hne : ps ≠ [])
    (h : ∀ p ∈ ps, Takes stuck s (p s)) : Takes stuck s (alt ps s) := by
  obtain ⟨p, hp, heq⟩ := exists_alt_eq hne s
  exact heq ▸ h p hp

end Rules

/-! ### An implementation -/

section OfLists

/-- The first parser that gives no plain error. -/
def altOf : List (List τ → IResult τ α) → List τ → IResult τ α
  | [], s => .error (.error ⟨s, .fail⟩)
  | [p], s => p s
  | p :: q :: ps, s =>
    match p s with
    | .error (.error _) => altOf (q :: ps) s
    | r => r

/-- The separators and items after an item; stuck when an item gives back more than it took. -/
def moreOf (sep : List τ → IResult τ β) (p : List τ → IResult τ α) (s : List τ) :
    IResult τ (List α) :=
  match sep s with
  | .error (.error _) => .ok (s, [])
  | .error e => .error e
  | .ok (s', _) =>
    match p s' with
    | .error (.error _) => .ok (s, [])
    | .error e => .error e
    | .ok (s'', a) =>
      if s''.length < s.length then (moreOf sep p s'').map fun r => (r.1, a :: r.2)
      else if s''.length = s.length then .error (.error ⟨s, .separatedList⟩)
      else .error .stuck
termination_by s.length

/-- Parsers that do what the laws say. -/
abbrev ofLists [DecidableEq τ] : Combinators τ where
  tag t s := if t <+: s then .ok (s.drop t.length, t) else .error (.error ⟨s, .tag⟩)
  char c s := if c ∈ s.head? then .ok (s.tail, c) else .error (.error ⟨s, .char⟩)
  takeWhile0 p s := .ok (s.dropWhile p, s.takeWhile p)
  takeWhile1 p s :=
    if s.takeWhile p = [] then .error (.error ⟨s, .takeWhile1⟩)
    else .ok (s.dropWhile p, s.takeWhile p)
  map p f s := (p s).map fun r => (r.1, f r.2)
  cut p s :=
    match p s with
    | .error (.error e) => .error (.failure e)
    | r => r
  alt := altOf
  separatedList0 sep p s :=
    match p s with
    | .error (.error _) => .ok (s, [])
    | .error e => .error e
    | .ok (s', a) => (moreOf sep p s').map fun r => (r.1, a :: r.2)
  separatedMore := moreOf
  tag_append t s := by simp
  tag_of_not_prefix h := if_neg h
  char_cons c s := by simp
  char_of_notMem_head h := if_neg h
  takeWhile0_eq _ _ := rfl
  takeWhile1_eq h := if_neg h
  takeWhile1_of_nil h := if_pos h
  map_eq _ _ _ := rfl
  cut_of_error h := by rw [h]
  cut_of_not_error h := by
    split
    · next e he => exact absurd ⟨e, he⟩ h
    · rfl
  alt_singleton _ _ := rfl
  alt_of_error h := by
    obtain ⟨e, he⟩ := h
    rw [altOf, he]
  alt_of_not_error {_ p ps s} h := by
    cases ps with
    | nil => rfl
    | cons q ps =>
      rw [altOf]
      split
      · next e he => exact absurd ⟨e, he⟩ h
      · rfl
  separatedList0_nil h := by
    obtain ⟨e, he⟩ := h
    rw [he]
  separatedList0_error {_ _ _ _ _ e} h he := by
    rw [h]
    cases e with
    | error e' => exact absurd rfl (he e')
    | _ => rfl
  separatedList0_cons h := by rw [h]
  separatedMore_nil h := by
    rw [moreOf]
    obtain ⟨e, he⟩ | ⟨r, hr, e, he⟩ := h
    · rw [he]
    · simp only [hr, he]
  separatedMore_error {_ _ _ _ _ e} h he := by
    rw [moreOf]
    obtain h | ⟨r, hr, h⟩ := h
    · rw [h]
      cases e with
      | error e' => exact absurd rfl (he e')
      | _ => rfl
    · simp only [hr, h]
  separatedMore_cons hsep h hlen := by
    rw [moreOf]
    simp only [hsep, h]
    exact if_pos hlen
  separatedMore_of_length_eq hsep h hlen := by
    rw [moreOf]
    simp [hsep, h, hlen]

end OfLists

end Combinators

end Combinator
