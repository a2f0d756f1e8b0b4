import Mathlib.Data.List.Perm.Basic
import Mathlib.Order.Lattice

/-!
# Lists below one another

A list is below another one when no upper set has more members in it. Lists that are below each
other are permutations. The first element of a list is the least to lose when the list is sorted,
and the last element of a list is the most to gain.

## Main definitions

* `List.CountLe`
* `List.replaceHead`

## Main results

* `List.CountLe.perm` — below each other
* `List.replaceHead_countLe` — below the same with sorted lists
-/

namespace List

variable {α : Type*} [LinearOrder α]

/-- No upper set has more members in the first list. -/
def CountLe (l l' : List α) : Prop :=
  ∀ p : α → Bool, (∀ a b, a ≤ b → p a = true → p b = true) → l.countP p ≤ l'.countP p

theorem Perm.countLe {l l' : List α} (h : l.Perm l') : CountLe l l' :=
  fun p _ => (h.countP_eq p).le

theorem CountLe.refl (l : List α) : CountLe l l := (Perm.refl l).countLe

theorem CountLe.trans {l l' l'' : List α} (h : CountLe l l') (h' : CountLe l' l'') :
    CountLe l l'' :=
  fun p hp => (h p hp).trans (h' p hp)

/-- **Lists below each other** are permutations. -/
theorem CountLe.perm {l l' : List α} (h : CountLe l l') (h' : CountLe l' l) : l.Perm l' := by
  refine perm_iff_count.mpr fun a => ?_
  have hsplit (l : List α) : l.countP (fun b => decide (a ≤ b)) =
      l.countP (fun b => decide (a < b)) + l.count a := by
    induction l with
    | nil => rfl
    | cons b l ih =>
      rw [countP_cons, countP_cons, count_cons, ih]
      rcases lt_trichotomy a b with hlt | heq | hgt
      · simp [hlt, hlt.le, hlt.ne']
        omega
      · simp [heq]
        omega
      · simp [hgt.not_ge, hgt.not_gt, hgt.ne]
  have hle := le_antisymm
    (h (fun b => decide (a ≤ b)) fun b c hbc hb => by simp at hb ⊢; exact hb.trans hbc)
    (h' (fun b => decide (a ≤ b)) fun b c hbc hb => by simp at hb ⊢; exact hb.trans hbc)
  have hlt := le_antisymm
    (h (fun b => decide (a < b)) fun b c hbc hb => by simp at hb ⊢; exact hb.trans_le hbc)
    (h' (fun b => decide (a < b)) fun b c hbc hb => by simp at hb ⊢; exact hb.trans_le hbc)
  rw [hsplit, hsplit, hlt] at hle
  omega

/-- A list with an element put in for its first one. -/
def replaceHead (l : List α) : Option α → List α
  | none => l
  | some a => a :: l.tail

/-- The last element of a sorted list is the greatest. -/
theorem le_of_getLast?_eq_some {l : List α} (hl : l.Pairwise (· ≤ ·)) {a b : α}
    (hlast : l.getLast? = some b) (ha : a ∈ l) : a ≤ b := by
  obtain ⟨l, rfl⟩ := getLast?_eq_some_iff.mp hlast
  rcases mem_append.mp ha with ha | ha
  · exact (pairwise_append.mp hl).2.2 a ha b mem_cons_self
  · exact (mem_singleton.mp ha).le

/-- Sorted, a list loses least with its first element. -/
theorem tail_countLe {l l' : List α} (hperm : l.Perm l') (hl' : l'.Pairwise (· ≤ ·)) :
    CountLe l.tail l'.tail := by
  intro p hp
  cases l with
  | nil =>
    rw [hperm.nil_eq]
  | cons a l =>
    cases l' with
    | nil => exact absurd hperm.eq_nil (cons_ne_nil a l)
    | cons a' l' =>
      have hcount := hperm.countP_eq p
      rw [countP_cons, countP_cons] at hcount
      have hle : a' ≤ a := by
        rcases mem_cons.mp (hperm.mem_iff.mp mem_cons_self) with heq | hmem
        · exact heq.ge
        · exact (pairwise_cons.mp hl').1 a hmem
      show l.countP p ≤ l'.countP p
      by_cases hpa : p a' = true
      · rw [if_pos hpa, if_pos (hp a' a hle hpa)] at hcount
        omega
      · rw [if_neg hpa] at hcount
        omega

/-- **Sorted lists are the best case**: what comes of putting the last element of one list in for the
first of another is below what comes of it with the two lists sorted. -/
theorem replaceHead_countLe {l l' given given' : List α} (hl : l.Perm l')
    (hl' : l'.Pairwise (· ≤ ·)) (hg : given.Perm given') (hg' : given'.Pairwise (· ≤ ·)) :
    CountLe (l.replaceHead given.getLast?) (l'.replaceHead given'.getLast?) := by
  cases hlast : given.getLast? with
  | none =>
    obtain rfl := getLast?_eq_none_iff.mp hlast
    rw [← hg.nil_eq]
    exact hl.countLe
  | some a =>
    have hmem : a ∈ given' := hg.mem_iff.mp (mem_of_getLast? hlast)
    obtain ⟨a', hlast'⟩ : ∃ a', given'.getLast? = some a' :=
      Option.ne_none_iff_exists'.mp fun hnone =>
        ne_nil_of_mem hmem (getLast?_eq_none_iff.mp hnone)
    rw [hlast']
    intro p hp
    have htail := tail_countLe hl hl' p hp
    show (a :: l.tail).countP p ≤ (a' :: l'.tail).countP p
    rw [countP_cons, countP_cons]
    by_cases hpa : p a = true
    · rw [if_pos hpa, if_pos (hp a a' (le_of_getLast?_eq_some hg' hlast' hmem) hpa)]
      omega
    · rw [if_neg hpa]
      omega

end List
