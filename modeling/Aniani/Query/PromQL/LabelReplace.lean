import Aniani.ForMathlib.ReplaceAll
import Aniani.Query.PromQL.Functions
import Aniani.Query.Text

/-!
# The replacement text of `label_replace`

The groups of a match are put into the replacement one after another, the last group first. Each of
them replaces its `$` and number throughout the text so far, whatever they are part of there: the
start of a longer number, or a text that was put in before. A substitution at once would replace
the references of the template and nothing else.

To tell the two apart, each character carries where it comes from. Only the characters are
compared, so what they carry makes no difference to the text.

## Main definitions

* `pieces` — a template, cut into its references and the characters between them
* `substitution` — the text with all references replaced at once
* `expandSources` — `expandGroups` on characters that carry their origin
* `SubstitutesAtOnce` — the replacement is that substitution
* `OnlyReferences` — what stands for a group, when its turn comes, is its references

## Main results

* `substitutesAtOnce_iff` — when the replacement is that substitution
* `not_substitutesAtOnce` — a text that is scanned again, and a number that is cut
-/

namespace Aniani

namespace PromQL

/-! ### Templates -/

/-- A part of a template: a character that stands for itself, or a reference to a group. -/
inductive Piece where
  | literal (c : Char)
  | reference (n : ℕ)

/-- A reference as it is written. -/
def refText (n : ℕ) : List Char := '$' :: (toString n).toList

theorem refText_ne_nil (n : ℕ) : refText n ≠ [] := List.cons_ne_nil _ _

/-- The group whose number some digits are. -/
def groupNumber (count : ℕ) (digits : List Char) : Option ℕ :=
  (List.range' 1 count).find? fun n => decide ((toString n).toList = digits)

/-- The group that a character refers to, with what comes after it: a `$` does if the digits after
it, all of them, are the number of a group. -/
def referenceAt (count : ℕ) (c : Char) (s : List Char) : Option ℕ :=
  if c = '$' then groupNumber count (s.takeWhile Char.isDigit) else none

/-- The parts of a template, for a number of groups. A `$` of no reference stands for itself. -/
def pieces (count : ℕ) : List Char → List Piece
  | [] => []
  | c :: s =>
    match referenceAt count c s with
    | some n => .reference n :: pieces count (s.dropWhile Char.isDigit)
    | none => .literal c :: pieces count s
termination_by s => s.length
decreasing_by
  · exact Nat.lt_succ_of_le (List.dropWhile_suffix _).length_le
  · exact Nat.lt_succ_self _

/-- Where a character comes from: from the template, as itself or as part of a reference, or from
the text of a group. -/
inductive Source where
  | literal
  | reference (n : ℕ)
  | group (n : ℕ)
  deriving DecidableEq

/-- The text of a group, empty for a group that took no part in the match. -/
def groupText (groups : List (Option String)) (n : ℕ) : List Char :=
  (groups[n - 1]?.join.getD "").toList

/-- The text of a part, when the groups above one are put in. -/
def Piece.fill (groups : List (Option String)) (done : ℕ) : Piece → List (Char × Source)
  | literal c => [(c, .literal)]
  | reference n =>
    if done < n then (groupText groups n).map fun c => (c, .group n)
    else (refText n).map fun c => (c, .reference n)

/-- The text of a template, when the groups above one are put in. -/
def filled (groups : List (Option String)) (done : ℕ) (template : List Piece) :
    List (Char × Source) :=
  template.flatMap (Piece.fill groups done)

theorem filled_cons (groups : List (Option String)) (done : ℕ) (p : Piece) (template : List Piece) :
    filled groups done (p :: template) = p.fill groups done ++ filled groups done template :=
  List.flatMap_cons

/-- **The substitution at once** of the references of a template. -/
def substitution (template : String) (groups : List (Option String)) : List (Char × Source) :=
  filled groups 0 (pieces groups.length template.toList)

/-! ### Numbers -/

theorem toList_toString (n : ℕ) : (toString n).toList = Nat.toDigits 10 n := Nat.toList_repr

theorem isDigit_of_mem_toString {n : ℕ} {c : Char} (h : c ∈ (toString n).toList) :
    c.isDigit = true :=
  Nat.isDigit_of_mem_toDigits (b := 10) (by decide) (by decide) (toList_toString n ▸ h)

/-- A number that starts with the digits of another one is no smaller. -/
theorem le_of_toString_append {m n : ℕ} {ds : List Char}
    (h : (toString n).toList = (toString m).toList ++ ds) : m ≤ n := by
  rw [toList_toString, toList_toString] at h
  have hvalue : n = Nat.ofDigitChars 10 (Nat.toDigits 10 m ++ ds) 0 := by
    rw [← h, Nat.ofDigitChars_ten_toDigits]
  rw [hvalue, Nat.ofDigitChars_append, Nat.ofDigitChars_ten_toDigits,
    Nat.ofDigitChars_eq_ofDigitChars_zero]
  exact (Nat.le_mul_of_pos_left m (Nat.pow_pos (by decide))).trans (Nat.le_add_right _ _)

theorem toString_of_groupNumber {count n : ℕ} {digits : List Char}
    (h : groupNumber count digits = some n) :
    (toString n).toList = digits ∧ 1 ≤ n ∧ n ≤ count := by
  have hrange := List.mem_range'_1.mp (List.mem_of_find?_eq_some h)
  have hdigits := List.find?_some h
  exact ⟨of_decide_eq_true hdigits, hrange.1, by omega⟩

/-! ### The parts of a template -/

/-- To prove a property of every template, take away a reference or a character at a time. -/
@[elab_as_elim]
theorem pieces_induction {motive : List Char → List Piece → Prop} (count : ℕ)
    (nil : motive [] [])
    (reference : ∀ n s, 1 ≤ n → n ≤ count → s.takeWhile Char.isDigit = (toString n).toList →
      motive (s.dropWhile Char.isDigit) (pieces count (s.dropWhile Char.isDigit)) →
        motive ('$' :: s) (.reference n :: pieces count (s.dropWhile Char.isDigit)))
    (literal : ∀ c s, motive s (pieces count s) → motive (c :: s) (.literal c :: pieces count s))
    (s : List Char) : motive s (pieces count s) := by
  induction s using pieces.induct count with
  | case1 =>
    rw [pieces]
    exact nil
  | case2 c s n hread ih =>
    obtain ⟨rfl, hnumber⟩ := Option.ite_none_right_eq_some.mp hread
    obtain ⟨hdigits, hpos, hle⟩ := toString_of_groupNumber hnumber
    rw [pieces, hread]
    exact reference n s hpos hle hdigits.symm ih
  | case3 c s hread ih =>
    rw [pieces, hread]
    exact literal c s ih

theorem le_of_mem_pieces {count n : ℕ} {s : List Char} (h : .reference n ∈ pieces count s) :
    n ≤ count := by
  induction s using pieces_induction count with
  | nil => cases h
  | reference m s hpos hle hdigits ih =>
    obtain heq | h := List.mem_cons.mp h
    · cases heq
      exact hle
    · exact ih h
  | literal c s ih =>
    obtain heq | h := List.mem_cons.mp h
    · cases heq
    · exact ih h

/-- After a reference there is no digit that stands for itself. -/
def FollowsReference : List Piece → Prop
  | .literal c :: _ => c.isDigit = false
  | _ => True

theorem followsReference_pieces {count : ℕ} {s : List Char}
    (h : ∀ c ∈ s.head?, c.isDigit = false) : FollowsReference (pieces count s) := by
  induction s using pieces_induction count with
  | nil => trivial
  | reference n s => trivial
  | literal c s => exact h c rfl

/-- Each reference takes all the digits there are. -/
def WholeReferences (template : List Piece) : Prop :=
  ∀ before n after, template = before ++ .reference n :: after → FollowsReference after

theorem WholeReferences.of_append {before after : List Piece}
    (h : WholeReferences (before ++ after)) : WholeReferences after := by
  rintro before' n after' rfl
  exact h (before ++ before') n after' (List.append_assoc _ _ _).symm

theorem WholeReferences.of_cons {p : Piece} {template : List Piece}
    (h : WholeReferences (p :: template)) : WholeReferences template :=
  WholeReferences.of_append (show WholeReferences ([p] ++ template) from h)

theorem wholeReferences_pieces (count : ℕ) (s : List Char) : WholeReferences (pieces count s) := by
  intro before n after h
  induction s using pieces_induction count generalizing before with
  | nil => exact absurd h.symm (List.append_ne_nil_of_right_ne_nil _ (List.cons_ne_nil _ _))
  | reference m s hpos hle hdigits ih =>
    cases before with
    | nil =>
      obtain ⟨-, rfl⟩ := List.cons.inj h
      refine followsReference_pieces fun c hc => ?_
      have hstop := List.head?_dropWhile_not Char.isDigit s
      rwa [Option.mem_def.mp hc] at hstop
    | cons p before => exact ih before (List.cons.inj h).2
  | literal c s ih =>
    cases before with
    | nil => cases (List.cons.inj h).1
    | cons p before => exact ih before (List.cons.inj h).2

/-- No group put in, the text is the template. -/
theorem map_fst_filled_pieces (groups : List (Option String)) (count : ℕ) (s : List Char) :
    (filled groups count (pieces count s)).map Prod.fst = s := by
  induction s using pieces_induction count with
  | nil => rfl
  | reference n s hpos hle hdigits ih =>
    rw [filled_cons, List.map_append, ih, Piece.fill,
      if_neg (Nat.not_lt.mpr hle), List.map_map, refText, ← hdigits]
    simp [Function.comp_def]
  | literal c s ih =>
    rw [filled_cons, List.map_append, ih]
    rfl

/-! ### The replacement -/

/-- `expandGroups`, on characters that carry where they come from. -/
def expandSources (text : List (Char × Source)) : ℕ → List (Option String) → List (Char × Source)
  | _, [] => text
  | n, group :: groups =>
    List.replaceAll Prod.fst (refText n) ((group.getD "").toList.map fun c => (c, .group n))
      (expandSources text (n + 1) groups)

/-- A group is put in wherever its `$` and number stand. -/
theorem toList_expandGroups_cons (replacement : String) (n : ℕ) (group : Option String)
    (groups : List (Option String)) :
    (expandGroups replacement n (group :: groups)).toList =
      List.replaceAll id (refText n) (group.getD "").toList
        (expandGroups replacement (n + 1) groups).toList := by
  have hpat : ("$" ++ toString n).toList = refText n := by simp [refText]
  have hne : "$" ++ toString n ≠ "" := fun h => absurd (congrArg String.toList h) (by simp)
  rw [expandGroups, String.toList_replace hne, hpat]

/-- **What the characters carry** makes no difference to the text. -/
theorem map_fst_expandSources (text : List (Char × Source)) (n : ℕ)
    (groups : List (Option String)) :
    (expandSources text n groups).map Prod.fst =
      (expandGroups (String.ofList (text.map Prod.fst)) n groups).toList := by
  induction groups generalizing n with
  | nil => rw [expandSources, expandGroups, String.toList_ofList]
  | cons group groups ih =>
    rw [expandSources, List.map_replaceAll (refText_ne_nil n), ih, toList_expandGroups_cons,
      List.map_map]
    simp [Function.comp_def]

/-- **The replacement substitutes at once** when its text is that of the substitution, and each of
its characters comes from where the substitution has it from: none that stands for itself, and none
that was put in, is taken for a part of a reference. -/
structure SubstitutesAtOnce (template : String) (groups : List (Option String)) : Prop where
  text : (expandGroups template 1 groups).toList = (substitution template groups).map Prod.fst
  sources : expandSources (filled groups groups.length (pieces groups.length template.toList)) 1
    groups = substitution template groups

/-- When the groups above one are put in, its `$` and number are found at its references alone. -/
def FoundAtReferences (groups : List (Option String)) (n : ℕ) (template : List Piece) : Prop :=
  ∀ l a r, filled groups n template = l ++ a :: r → refText n <+: (a :: r).map Prod.fst →
    a.2 = .reference n

/-- **What is found for a group** is its references, for each group. -/
def OnlyReferences (template : String) (groups : List (Option String)) : Prop :=
  ∀ n, 1 ≤ n → n ≤ groups.length →
    FoundAtReferences groups n (pieces groups.length template.toList)

/-! ### One group after another -/

section Passes

variable {groups : List (Option String)} {n : ℕ} {template : List Piece}

/-- A character of the text is one of a part of the template. -/
theorem exists_piece_of_filled {l r : List (Char × Source)} {a : Char × Source}
    (h : filled groups n template = l ++ a :: r) :
    ∃ before p after u v, template = before ++ p :: after ∧ p.fill groups n = u ++ a :: v ∧
      r = v ++ filled groups n after := by
  induction template generalizing l with
  | nil => exact absurd h.symm (List.append_ne_nil_of_right_ne_nil _ (List.cons_ne_nil _ _))
  | cons p template ih =>
    rw [filled_cons] at h
    obtain ⟨k, hl, hk⟩ | ⟨k, hl, hk⟩ := List.append_eq_append_iff.mp h
    · obtain ⟨before, q, after, u, v, rfl, hfill, rfl⟩ := ih hk
      exact ⟨p :: before, q, after, u, v, rfl, hfill, rfl⟩
    · cases k with
      | nil =>
        obtain ⟨before, q, after, u, v, rfl, hfill, rfl⟩ := ih (l := []) hk.symm
        exact ⟨p :: before, q, after, u, v, rfl, hfill, rfl⟩
      | cons b k =>
        obtain ⟨rfl, rfl⟩ := List.cons.inj hk
        exact ⟨[], p, template, l, k, rfl, hl, rfl⟩

/-- The part of a group's reference, before the group is put in and after. -/
theorem fill_reference (hn : 1 ≤ n) :
    Piece.fill groups n (.reference n) = (refText n).map (fun c => (c, .reference n)) ∧
      Piece.fill groups (n - 1) (.reference n) = (groupText groups n).map fun c => (c, .group n) :=
  ⟨if_neg (Nat.lt_irrefl n), if_pos (Nat.sub_lt hn Nat.one_pos)⟩

/-- The other parts stay as they are. -/
theorem fill_of_ne {p : Piece} (h : p ≠ .reference n) :
    p.fill groups (n - 1) = p.fill groups n := by
  cases p with
  | literal c => rfl
  | reference m =>
    have hne : m ≠ n := fun heq => h (congrArg Piece.reference heq)
    rw [Piece.fill, Piece.fill]
    simp only [show n - 1 < m ↔ n < m by omega]

theorem source_of_mem_fill {p : Piece} {m : ℕ} {a : Char × Source} (ha : a ∈ p.fill groups n)
    (hsource : a.2 = .reference m) : p = .reference m := by
  cases p with
  | literal c =>
    obtain rfl := List.mem_singleton.mp ha
    cases hsource
  | reference k =>
    rw [Piece.fill] at ha
    split_ifs at ha
    · obtain ⟨c, -, rfl⟩ := List.mem_map.mp ha
      cases hsource
    · obtain ⟨c, -, rfl⟩ := List.mem_map.mp ha
      exact congrArg Piece.reference (Source.reference.inj hsource)

/-- **A group is put in** at its references and nowhere else, when it is found there alone. -/
theorem replaceAll_filled (hn : 1 ≤ n) (h : FoundAtReferences groups n template) :
    List.replaceAll Prod.fst (refText n) ((groupText groups n).map fun c => (c, .group n))
      (filled groups n template) = filled groups (n - 1) template := by
  induction template with
  | nil => exact List.replaceAll_nil
  | cons p template ih =>
    have hrest := ih fun l a r heq hfound => h (p.fill groups n ++ l) a r
      (by rw [filled_cons, heq, List.append_assoc]) hfound
    rw [filled_cons, filled_cons]
    by_cases hp : p = .reference n
    · subst hp
      rw [(fill_reference hn).1, (fill_reference hn).2,
        List.replaceAll_append_of_eq (by simp [Function.comp_def]) (refText_ne_nil n), hrest]
    · rw [fill_of_ne hp, List.replaceAll_append_of_not_found, hrest]
      intro l a r hfill hfound
      have ha : a ∈ p.fill groups n := by simp [hfill]
      refine hp (source_of_mem_fill ha (h l a (r ++ filled groups n template) ?_ hfound))
      rw [filled_cons, hfill, List.append_assoc]
      rfl

/-- No group is put in at first. -/
theorem filled_of_le (hmem : ∀ {m}, .reference m ∈ template → m ≤ n) {k : ℕ} (hk : n ≤ k) :
    filled groups k template = filled groups n template := by
  refine List.flatMap_congr fun p hp => ?_
  cases p with
  | literal c => rfl
  | reference m =>
    have hm := hmem hp
    rw [Piece.fill, Piece.fill, if_neg (by omega), if_neg (by omega)]

theorem groupText_of_drop {k : ℕ} {group : Option String} {rest : List (Option String)}
    (h : groups.drop k = group :: rest) : (group.getD "").toList = groupText groups (k + 1) := by
  have hget : groups[k]? = some group := by rw [← List.head?_drop, h, List.head?_cons]
  rw [groupText, Nat.add_sub_cancel, hget]
  rfl

/-- **The groups above one are put in**, when each of them is found at its references alone. -/
theorem expandSources_drop (hmem : ∀ {m}, .reference m ∈ template → m ≤ groups.length)
    (h : ∀ m, n < m → m ≤ groups.length → FoundAtReferences groups m template) :
    expandSources (filled groups groups.length template) (n + 1) (groups.drop n) =
      filled groups n template := by
  induction hdrop : groups.drop n generalizing n with
  | nil =>
    rw [expandSources, filled_of_le hmem (List.drop_eq_nil_iff.mp hdrop)]
  | cons group rest ih =>
    have hlt : n < groups.length := by
      have hlength := congrArg List.length hdrop
      rw [List.length_drop, List.length_cons] at hlength
      omega
    have hrest : groups.drop (n + 1) = rest := by
      rw [← List.tail_drop, hdrop, List.tail_cons]
    rw [expandSources, ih (fun m hm => h m (Nat.lt_of_succ_lt hm)) hrest, groupText_of_drop hdrop,
      replaceAll_filled (Nat.succ_pos n) (h (n + 1) (Nat.lt_succ_self n) hlt)]
    rfl

/-! ### What is lost -/

/-- A character that stands for itself, or one that was put in for a group above a given one. -/
def Source.stays (n : ℕ) : Source → Bool
  | literal => true
  | reference _ => false
  | group m => decide (n < m)

/-- The characters that stay to the end of a substitution, when the groups above one are put in. -/
def staying (n : ℕ) (text : List (Char × Source)) : ℕ := text.countP fun a => a.2.stays n

theorem staying_append (n : ℕ) (text text' : List (Char × Source)) :
    staying n (text ++ text') = staying n text + staying n text' :=
  List.countP_append

/-- Characters that come from one place. -/
theorem staying_map (n : ℕ) (l : List Char) (source : Source) :
    staying n (l.map fun c => (c, source)) = if source.stays n then l.length else 0 := by
  rw [staying, List.countP_map]
  split_ifs with h
  · exact List.countP_eq_length.mpr fun c _ => h
  · exact List.countP_eq_zero.mpr fun c _ => h

/-- They do stay. -/
theorem staying_filled (groups : List (Option String)) (n : ℕ) (template : List Piece) :
    staying n (filled groups 0 template) = staying n (filled groups n template) := by
  induction template with
  | nil => rfl
  | cons p template ih =>
    rw [filled_cons, filled_cons, staying_append, staying_append, ih]
    congr 1
    cases p with
    | literal c => rfl
    | reference m =>
      rw [Piece.fill, Piece.fill]
      by_cases hm : n < m
      · rw [if_pos hm, if_pos (Nat.zero_lt_of_lt hm)]
      · rw [if_neg hm]
        split_ifs
        · simp [staying_map, Source.stays, hm]
        · rfl

/-- The first digit after a reference stays. -/
theorem stays_of_followsReference (h : WholeReferences template)
    (hfollows : FollowsReference template) {a : Char × Source} {r : List (Char × Source)}
    (ha : filled groups n template = a :: r) (hdigit : a.1.isDigit = true) :
    a.2.stays n = true := by
  induction template with
  | nil => cases ha
  | cons p template ih =>
    rw [filled_cons] at ha
    cases p with
    | literal c =>
      obtain ⟨rfl, -⟩ := List.cons.inj ha
      exact absurd hdigit (by rw [show c.isDigit = false from hfollows]; exact Bool.false_ne_true)
    | reference m =>
      rw [Piece.fill] at ha
      split_ifs at ha with hm
      · cases hl : groupText groups m with
        | nil =>
          rw [hl] at ha
          exact ih h.of_cons (h [] m template rfl) ha
        | cons c l =>
          rw [hl] at ha
          obtain ⟨rfl, -⟩ := List.cons.inj ha
          exact decide_eq_true hm
      · obtain ⟨rfl, -⟩ := List.cons.inj ha
        exact absurd (show '$'.isDigit = true from hdigit) (by decide)

/-- **What is found for a group** and is none of its references has a character in it that stays. -/
theorem exists_staying_of_found (hwhole : WholeReferences template) {l r : List (Char × Source)}
    {a : Char × Source} (htext : filled groups n template = l ++ a :: r)
    (hfound : refText n <+: (a :: r).map Prod.fst) (ha : a.2 ≠ .reference n) :
    ∃ m r', a :: r = m ++ r' ∧ m.map Prod.fst = refText n ∧ 0 < staying n m := by
  obtain ⟨m, r', heq, hm⟩ := List.exists_append_of_prefix_map hfound
  refine ⟨m, r', heq, hm, List.countP_pos_iff.mpr ?_⟩
  obtain ⟨a', m, rfl⟩ : ∃ a' m', m = a' :: m' :=
    List.exists_cons_of_ne_nil fun hnil => refText_ne_nil n (by rw [← hm, hnil, List.map_nil])
  obtain ⟨hdollar, hdigits⟩ := List.cons.inj hm
  obtain ⟨rfl, hrest⟩ := List.cons.inj heq
  obtain ⟨before, p, after, u, v, rfl, hfill, rfl⟩ := exists_piece_of_filled htext
  have hmem : a ∈ p.fill groups n := by simp [hfill]
  cases p with
  | literal c =>
    obtain rfl := List.mem_singleton.mp hmem
    exact ⟨_, List.mem_cons_self, rfl⟩
  | reference k =>
    rw [Piece.fill] at hmem hfill
    split_ifs at hmem hfill with hk
    · obtain ⟨c, -, rfl⟩ := List.mem_map.mp hmem
      exact ⟨_, List.mem_cons_self, decide_eq_true hk⟩
    · -- it is the start of another reference, which is followed by a digit
      obtain rfl : u = [] := by
        cases u with
        | nil => rfl
        | cons b u =>
          have ha' : a ∈ (toString k).toList.map fun c => (c, Source.reference k) := by
            rw [(List.cons.inj hfill).2]
            simp
          obtain ⟨c, hc, rfl⟩ := List.mem_map.mp ha'
          exact absurd (isDigit_of_mem_toString hc) (by rw [show c = '$' from hdollar]; decide)
      have hv : v = (toString k).toList.map fun c => (c, .reference k) :=
        (List.cons.inj hfill).2.symm
      have hkn : k ≠ n := fun hkn => ha (hkn ▸ congrArg Prod.snd (List.cons.inj hfill).1.symm)
      have hvk : v.map Prod.fst = (toString k).toList := by
        rw [hv, List.map_map]
        simp [Function.comp_def]
      obtain ⟨w, rfl, hw⟩ | ⟨w, hw, -⟩ := List.append_eq_append_iff.mp hrest
      · rw [List.map_append, hvk] at hdigits
        cases w with
        | nil =>
          rw [List.map_nil, List.append_nil] at hdigits
          exact absurd (toString_injective (String.toList_inj.mp hdigits)) hkn
        | cons b w =>
          have hdigit : b.1.isDigit = true := by
            have hb : b.1 ∈ (toString n).toList :=
              hdigits ▸ List.mem_append_right _ List.mem_cons_self
            exact isDigit_of_mem_toString hb
          refine ⟨b, by simp, stays_of_followsReference ?_ (hwhole before k after rfl) hw hdigit⟩
          exact hwhole.of_append.of_cons
      · rw [hw, List.map_append, hdigits] at hvk
        have hle := le_of_toString_append hvk.symm
        omega

variable (groups) in
/-- The groups up to one take none away that were put in for those above. -/
theorem staying_expandSources_le (text : List (Char × Source)) {k : ℕ} (hk : k ≤ n) :
    staying n (expandSources text 1 groups) ≤
      staying n (expandSources text (k + 1) (groups.drop k)) := by
  induction k with
  | zero => exact le_rfl
  | succ k ih =>
    refine (ih (Nat.le_of_succ_le hk)).trans ?_
    cases hdrop : groups.drop k with
    | nil =>
      have hrest : groups.drop (k + 1) = [] := by rw [← List.tail_drop, hdrop, List.tail_nil]
      rw [hrest]
      exact le_rfl
    | cons group rest =>
      have hrest : groups.drop (k + 1) = rest := by rw [← List.tail_drop, hdrop, List.tail_cons]
      rw [hrest, expandSources]
      refine List.countP_replaceAll_le (refText_ne_nil _) ?_ _
      exact (staying_map n _ _).trans (if_neg (by simp [Source.stays]; omega))

/-- A group that is found anywhere else takes a character away that a substitution keeps. -/
theorem foundAtReferences_of_expandSources (hwhole : WholeReferences template)
    (hmem : ∀ {m}, .reference m ∈ template → m ≤ groups.length) {k : ℕ} (hk : k < groups.length)
    (habove : ∀ m, k + 1 < m → m ≤ groups.length → FoundAtReferences groups m template)
    (h : expandSources (filled groups groups.length template) 1 groups = filled groups 0 template) :
    FoundAtReferences groups (k + 1) template := by
  intro l a r htext hfound
  by_contra ha
  obtain ⟨m, r', heq, hm, hpos⟩ := exists_staying_of_found hwhole htext hfound ha
  have hpass : expandSources (filled groups groups.length template) (k + 1) (groups.drop k) =
      List.replaceAll Prod.fst (refText (k + 1))
        (((groups[k].getD "").toList).map fun c => (c, .group (k + 1)))
        (filled groups (k + 1) template) := by
    rw [List.drop_eq_getElem_cons hk, expandSources, expandSources_drop hmem habove]
  have hdollar : '$' ∉ (toString (k + 1)).toList := fun hc =>
    absurd (isDigit_of_mem_toString hc) (by decide)
  have hput : staying (k + 1) (((groups[k].getD "").toList).map fun c => (c, .group (k + 1))) = 0 :=
    (staying_map _ _ _).trans (if_neg (by simp [Source.stays]))
  have hlt : staying (k + 1) (expandSources (filled groups groups.length template) (k + 1)
      (groups.drop k)) < staying (k + 1) (filled groups (k + 1) template) := by
    rw [hpass, htext, heq]
    exact List.countP_replaceAll_lt hdollar hput hm hpos
  have hle := staying_expandSources_le groups (filled groups groups.length template)
    (Nat.le_succ k)
  rw [h, staying_filled] at hle
  exact absurd (hle.trans_lt hlt) (Nat.lt_irrefl _)

end Passes

/-- **The replacement substitutes at once** exactly when nothing but its references is found for a
group. -/
theorem substitutesAtOnce_iff (template : String) (groups : List (Option String)) :
    SubstitutesAtOnce template groups ↔ OnlyReferences template groups := by
  have hwhole := wholeReferences_pieces groups.length template.toList
  have hmem : ∀ {m}, .reference m ∈ pieces groups.length template.toList → m ≤ groups.length :=
    fun h => le_of_mem_pieces h
  constructor
  · rintro ⟨-, hsources⟩
    -- from the last group to the first
    have key : ∀ d k, groups.length - k = d → ∀ m, k < m → m ≤ groups.length →
        FoundAtReferences groups m (pieces groups.length template.toList) := by
      intro d
      induction d with
      | zero =>
        intro k hk m hkm hm
        omega
      | succ d ih =>
        intro k hk m hkm hm
        have habove := ih (k + 1) (by omega)
        obtain rfl | hlt := Nat.eq_or_lt_of_le (Nat.succ_le_of_lt hkm)
        · exact foundAtReferences_of_expandSources hwhole hmem (by omega) habove hsources
        · exact habove m hlt hm
    exact fun n hpos hle => key _ 0 rfl n hpos hle
  · intro h
    have hsources : expandSources
        (filled groups groups.length (pieces groups.length template.toList)) 1 groups =
          substitution template groups :=
      expandSources_drop hmem h
    refine ⟨?_, hsources⟩
    rw [← hsources, map_fst_expandSources, map_fst_filled_pieces, String.ofList_toList]

/-- The whole of a match, whatever it is. -/
example (group : Option String) : OnlyReferences "$1" [group] := by
  intro n hpos hle l a r htext _
  obtain rfl : n = 1 := le_antisymm hle hpos
  have hnumber : groupNumber 1 ['1'] = some 1 := by decide
  have hone : refText 1 = ['$', '1'] := by decide
  have hfilled : filled [group] 1 (pieces 1 "$1".toList) =
      [('$', .reference 1), ('1', .reference 1)] := by
    simp [pieces, referenceAt, hnumber, filled, Piece.fill, hone]
  have ha : a ∈ filled [group] 1 (pieces 1 "$1".toList) := by
    rw [show filled [group] 1 (pieces 1 "$1".toList) = l ++ a :: r from htext]
    simp
  rw [hfilled] at ha
  obtain rfl | ha := List.mem_cons.mp ha
  · rfl
  · obtain rfl := List.mem_singleton.mp ha
    rfl

/-! ### Texts that are scanned again -/

/-- **A text that is scanned again**, and a number that is cut: what is put in for the second group
is taken for a reference to the first one, and so is the start of a higher number. -/
theorem not_substitutesAtOnce :
    (expandGroups "$2" 1 [some "x", some "$1"] = "x" ∧
      (substitution "$2" [some "x", some "$1"]).map Prod.fst = "$1".toList) ∧
    (expandGroups "$12" 1 [some "a"] = "a2" ∧
      (substitution "$12" [some "a"]).map Prod.fst = "$12".toList) := by
  have hone : refText 1 = ['$', '1'] := by decide
  have htwo : refText 2 = ['$', '2'] := by decide
  have hsecond : groupNumber 2 ['2'] = some 2 := by decide
  have htwelve : groupNumber 1 ['1', '2'] = none := by decide
  refine ⟨⟨?_, ?_⟩, ?_, ?_⟩
  · rw [← String.toList_inj, toList_expandGroups_cons, toList_expandGroups_cons, expandGroups]
    simp [List.replaceAll, hone, htwo]
  · simp [substitution, pieces, referenceAt, hsecond, filled, Piece.fill, groupText]
  · rw [← String.toList_inj, toList_expandGroups_cons, expandGroups]
    simp [List.replaceAll, hone]
  · simp [substitution, pieces, referenceAt, htwelve, filled, Piece.fill]

end PromQL

end Aniani
