import Mathlib.Data.List.TakeWhile

/-!
# Cutting a list

A list is cut at the first occurrence of a pattern, or where a test first fails.

## Main definitions

* `List.breakOn` — what is before the first occurrence of a pattern, and what is after it
* `List.before` — what is before the first occurrence, if there is one
* `List.StartsIn` — empty, or begins with one of some elements

## Main results

* `List.exists_eq_before_append` — the rest of the list begins with the pattern
* `List.breakOn_append` — the pattern does not begin in a part without its first element
* `List.exists_eq_takeWhile_append`, `List.takeWhile_notMem_append` — the elements up to some
-/

namespace List

variable {α : Type*} [DecidableEq α]

/-- What is before the first occurrence of a pattern, and what is after it. -/
def breakOn (pat : List α) : List α → Option (List α × List α)
  | [] => if pat = [] then some ([], []) else none
  | a :: l =>
    if pat <+: a :: l then some ([], (a :: l).drop pat.length)
    else (breakOn pat l).map fun cut => (a :: cut.1, cut.2)

/-- What is before the first occurrence of a pattern, if there is one. -/
def before (pat l : List α) : List α := ((breakOn pat l).map Prod.fst).getD l

/-- Empty, or begins with one of some elements. -/
def StartsIn (as l : List α) : Prop := ∀ a ∈ l.head?, a ∈ as

theorem eq_of_breakOn {pat l before after : List α} (h : breakOn pat l = some (before, after)) :
    l = before ++ (pat ++ after) := by
  induction l generalizing before with
  | nil =>
    rw [breakOn] at h
    split_ifs at h with hpat
    obtain ⟨rfl, rfl⟩ := Prod.mk.inj (Option.some.inj h)
    simp [hpat]
  | cons a l ih =>
    rw [breakOn] at h
    split_ifs at h with hpat
    · obtain ⟨rfl, rfl⟩ := Prod.mk.inj (Option.some.inj h)
      exact (prefix_iff_eq_append.mp hpat).symm
    · obtain ⟨⟨before', after'⟩, hcut, heq⟩ := Option.map_eq_some_iff.mp h
      obtain ⟨rfl, rfl⟩ := Prod.mk.inj heq
      rw [ih hcut, cons_append]

/-- What is not before the first occurrence of a pattern begins with the pattern. -/
theorem exists_eq_before_append (pat l : List α) :
    ∃ rest, l = before pat l ++ rest ∧ (rest = [] ∨ pat <+: rest) := by
  cases hcut : breakOn pat l with
  | none => exact ⟨[], by simp [before, hcut], Or.inl rfl⟩
  | some cut =>
    refine ⟨pat ++ cut.2, ?_, Or.inr (prefix_append pat cut.2)⟩
    rw [before, hcut]
    exact eq_of_breakOn hcut

theorem before_prefix (pat l : List α) : before pat l <+: l := by
  obtain ⟨rest, hrest, -⟩ := exists_eq_before_append pat l
  exact ⟨rest, hrest.symm⟩

theorem before_of_prefix {pat l : List α} (hne : pat ≠ []) (h : pat <+: l) : before pat l = [] := by
  cases l with
  | nil => exact absurd (prefix_nil.mp h) hne
  | cons a l => simp [before, breakOn, h]

omit [DecidableEq α] in
theorem StartsIn.of_prefix {as l l' : List α} (h : StartsIn as l) (hpre : l' <+: l) :
    StartsIn as l' := by
  obtain ⟨rest, rfl⟩ := hpre
  cases l' with
  | nil => simp [StartsIn]
  | cons a l' => exact h

omit [DecidableEq α] in
theorem StartsIn.append {as l l' : List α} (h : StartsIn as l) (h' : l = [] → StartsIn as l') :
    StartsIn as (l ++ l') := by
  cases l with
  | nil => exact h' rfl
  | cons a l => exact h

/-- A pattern does not begin in a part without its first element. -/
theorem breakOn_append {a : α} {pat l : List α} (h : a ∉ l) (l' : List α) :
    breakOn (a :: pat) (l ++ l') =
      (breakOn (a :: pat) l').map fun cut => (l ++ cut.1, cut.2) := by
  induction l with
  | nil => simp
  | cons b l ih =>
    obtain ⟨hb, hl⟩ := not_or.mp (mt mem_cons.mpr h)
    have hpat : ¬ (a :: pat) <+: b :: (l ++ l') := fun hpat => hb (cons_prefix_cons.mp hpat).1
    rw [cons_append, breakOn, if_neg hpat, ih hl, Option.map_map]
    rfl

theorem breakOn_eq_none {a : α} {pat l : List α} (h : a ∉ l) : breakOn (a :: pat) l = none := by
  rw [← append_nil l, breakOn_append h]
  rfl

theorem before_append {pat l l' : List α}
    (h : breakOn pat (l ++ l') = (breakOn pat l').map fun cut => (l ++ cut.1, cut.2)) :
    before pat (l ++ l') = l ++ before pat l' := by
  rw [before, before, h]
  cases breakOn pat l' <;> rfl

theorem exists_eq_takeWhile_append (as l : List α) :
    ∃ tail, l = l.takeWhile (fun a => decide (a ∉ as)) ++ tail ∧ StartsIn as tail := by
  refine ⟨_, takeWhile_append_dropWhile.symm, fun a ha => ?_⟩
  have hhead := head?_dropWhile_not (fun a => decide (a ∉ as)) l
  rw [Option.mem_def.mp ha] at hhead
  simpa using hhead

/-- **The elements up to some**, of a list that is cut there. -/
theorem takeWhile_notMem_append {as n tail : List α} (hn : ∀ a ∈ n, a ∉ as)
    (htail : StartsIn as tail) : (n ++ tail).takeWhile (fun a => decide (a ∉ as)) = n := by
  rw [takeWhile_append_of_pos fun a ha => decide_eq_true (hn a ha)]
  cases tail with
  | nil => simp
  | cons a tail => rw [takeWhile_cons_of_neg (by simp [htail a rfl]), append_nil]

/-- The elements up to one, and of those the ones up to another. -/
theorem takeWhile_ne_takeWhile_ne (a b : α) (l : List α) :
    (l.takeWhile (· ≠ b)).takeWhile (· ≠ a) = l.takeWhile fun c => decide (c ∉ [b, a]) := by
  rw [takeWhile_takeWhile]
  congr 1
  funext c
  simp [and_comm]

end List
