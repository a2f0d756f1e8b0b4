import Mathlib.Data.List.Basic

/-!
# Serving a budget in turn

A loop that has a budget to spend walks a list of keys, gives each key as much as it can take, and
stops when nothing is left. `List.share` is what one key gets.

## Main definitions

* `List.share` — the part of the budget that goes to one key

## Main results

* `List.share_congr`, `List.share_of_notMem` — what the share depends on
* `List.share_eq_need` — a key gets nothing before those ahead of it have all they need
-/

namespace List

variable {κ : Type*} [DecidableEq κ]

/-- What goes to `i` when a budget is spent on the keys in turn, and a key `j` takes at most
`need j`. -/
def share (need : κ → ℕ) : ℕ → List κ → κ → ℕ
  | _, [], _ => 0
  | budget, j :: l, i => if i = j then min budget (need j) else share need (budget - need j) l i

@[simp] theorem share_zero (need : κ → ℕ) (l : List κ) (i : κ) : share need 0 l i = 0 := by
  induction l with
  | nil => rfl
  | cons j l ih =>
    rw [share, Nat.zero_sub, ih, Nat.zero_min, ite_self]

theorem share_of_notMem (need : κ → ℕ) (budget : ℕ) {l : List κ} {i : κ} (h : i ∉ l) :
    share need budget l i = 0 := by
  induction l generalizing budget with
  | nil => rfl
  | cons j l ih =>
    obtain ⟨hj, hl⟩ := not_or.mp (mem_cons.not.mp h)
    rw [share, if_neg hj, ih _ hl]

/-- Only the needs of the keys on the list matter. -/
theorem share_congr {need need' : κ → ℕ} {l : List κ} (h : ∀ j ∈ l, need j = need' j)
    (budget : ℕ) (i : κ) : share need budget l i = share need' budget l i := by
  induction l generalizing budget with
  | nil => rfl
  | cons j l ih =>
    rw [share, share, h j mem_cons_self, ih fun j' hj' => h j' (mem_cons_of_mem _ hj')]

theorem share_le (need : κ → ℕ) (budget : ℕ) (l : List κ) (i : κ) :
    share need budget l i ≤ budget := by
  induction l generalizing budget with
  | nil => exact Nat.zero_le budget
  | cons j l ih =>
    rw [share]
    split
    · exact Nat.min_le_left _ _
    · exact Nat.le_trans (ih _) (Nat.sub_le _ _)

/-- **A key gets nothing before those ahead of it** have all they need. -/
theorem share_eq_need {need : κ → ℕ} {r : κ → κ → Prop} {l : List κ} (hl : l.Pairwise r) {i j : κ}
    (hi : i ∈ l) (hij : i ≠ j) (hr : ¬ r j i) {budget : ℕ} (hj : 0 < share need budget l j) :
    share need budget l i = need i := by
  induction l generalizing budget with
  | nil => exact absurd hi not_mem_nil
  | cons k l ih =>
    obtain ⟨hhead, htail⟩ := pairwise_cons.mp hl
    rw [share] at hj ⊢
    split_ifs at hj with hjk
    · subst hjk
      exact absurd (hhead i ((mem_cons.mp hi).resolve_left hij)) hr
    · split_ifs with hik
      · subst hik
        have hleft := Nat.lt_of_lt_of_le hj (share_le need (budget - need i) l j)
        exact Nat.min_eq_right (Nat.le_of_lt (Nat.lt_of_sub_pos hleft))
      · exact ih htail ((mem_cons.mp hi).resolve_left hik) hj

end List
