import Mathlib.Algebra.Order.Field.Basic
import Mathlib.Order.Monotone.Defs
import Mathlib.Tactic.Linarith

/-!
# Functions in pieces

A function is monotone when it is so on each piece of its domain and each piece lies above the one
before. Pieces of linear interpolation are of this kind: the value between two points is a weighted
mean of those at the points.

## Main results

* `monotoneOn_of_pieces`
* `weighted_mem_Icc`, `weighted_mono` — the weighted means of two numbers
-/

/-- **A function in pieces** is monotone if it is so in each piece and the pieces lie in order. -/
theorem monotoneOn_of_pieces {α β ι : Type*} [Preorder α] [Preorder β] [PartialOrder ι]
    {s : Set α} {f : α → β} (piece : α → ι) (lo hi : ι → β) (hpiece : MonotoneOn piece s)
    (hlo : ∀ x ∈ s, lo (piece x) ≤ f x) (hhi : ∀ x ∈ s, f x ≤ hi (piece x))
    (hstep : ∀ x ∈ s, ∀ y ∈ s, piece x < piece y → hi (piece x) ≤ lo (piece y))
    (hwithin : ∀ x ∈ s, ∀ y ∈ s, x ≤ y → piece x = piece y → f x ≤ f y) : MonotoneOn f s := by
  intro x hx y hy hxy
  rcases (hpiece hx hy hxy).eq_or_lt with heq | hlt
  · exact hwithin x hx y hy hxy heq
  · exact (hhi x hx).trans ((hstep x hx y hy hlt).trans (hlo y hy))

section Weighted

variable {K : Type*} [Field K] [LinearOrder K] [IsStrictOrderedRing K] {a b w w' : K}

theorem weighted_mem_Icc (hab : a ≤ b) (hw : w ∈ Set.Icc 0 1) :
    a + w * (b - a) ∈ Set.Icc a b := by
  have hlength : 0 ≤ b - a := sub_nonneg.mpr hab
  have hlo : 0 ≤ w * (b - a) := mul_nonneg hw.1 hlength
  have hhi : w * (b - a) ≤ b - a := mul_le_of_le_one_left hlength hw.2
  exact ⟨by linarith, by linarith⟩

theorem weighted_mono (hab : a ≤ b) (hw : w ≤ w') : a + w * (b - a) ≤ a + w' * (b - a) :=
  add_le_add_right (mul_le_mul_of_nonneg_right hw (sub_nonneg.mpr hab)) a

end Weighted
