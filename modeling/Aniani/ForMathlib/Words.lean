import Mathlib.Data.List.Basic
import Mathlib.Data.List.TakeWhile

/-!
# The words of a text

The breaks of a text are the elements that pass a test. Its words are what stands between them, as
long as it is not empty.

## Main definitions

* `List.words`

## Main results

* `List.words_append_cons` — a text splits at a break
* `List.words_append_flatMap` — texts that are joined with a break in between
* `List.forall_of_mem_words` — no break is in a word
* `List.append_takeWhile_mem_words` — the first word of a text
-/

namespace List

variable {α : Type*} {p : α → Bool}

/-- What stands between the breaks. -/
def words (p : α → Bool) (l : List α) : List (List α) :=
  (l.splitOnP p).filter fun word => !word.isEmpty

@[simp] theorem words_nil : ([] : List α).words p = [] := by simp [words]

/-- **A text splits at a break.** -/
theorem words_append_cons {c : α} (hc : p c = true) (l s : List α) :
    (l ++ c :: s).words p = l.words p ++ s.words p := by
  rw [words, splitOnP_append_cons l s hc, filter_append]
  rfl

/-- A text without a break is a word. -/
theorem words_eq_singleton {l : List α} (hne : l ≠ []) (h : ∀ a ∈ l, p a = false) :
    l.words p = [l] := by
  rw [words, splitOnP_eq_singleton h]
  simp [hne]

/-- Texts that are joined with a break in between. -/
theorem words_append_flatMap {c : α} (hc : p c = true) (l : List α) (texts : List (List α)) :
    (l ++ texts.flatMap fun text => c :: text).words p =
      l.words p ++ texts.flatMap (words p) := by
  induction texts generalizing l with
  | nil => simp
  | cons text texts ih =>
    rw [flatMap_cons, cons_append, words_append_cons hc, ih, flatMap_cons]

/-- No break is in a part. -/
theorem forall_of_mem_splitOnP {l word : List α} (h : word ∈ l.splitOnP p) :
    ∀ a ∈ word, p a = false := by
  induction l generalizing word with
  | nil =>
    rw [splitOnP_nil, mem_singleton] at h
    simp [h]
  | cons b l ih =>
    rw [splitOnP_cons_eq_if_modifyHead] at h
    by_cases hb : p b = true
    · rw [if_pos hb, mem_cons] at h
      obtain rfl | h := h
      · simp
      · exact ih h
    · obtain ⟨first, rest, hparts⟩ := exists_cons_of_ne_nil (splitOnP_ne_nil p l)
      rw [if_neg hb, hparts, modifyHead_cons, mem_cons] at h
      rw [hparts] at ih
      obtain rfl | h := h
      · exact forall_mem_cons.mpr ⟨by simpa using hb, ih mem_cons_self⟩
      · exact ih (mem_cons_of_mem first h)

theorem forall_of_mem_words {l word : List α} (h : word ∈ l.words p) : ∀ a ∈ word, p a = false :=
  forall_of_mem_splitOnP (mem_of_mem_filter h)

/-- **The first word** of a text that does not begin with a break. -/
theorem append_takeWhile_mem_words {l : List α} (hne : l ≠ []) (h : ∀ a ∈ l, p a = false)
    (s : List α) : l ++ s.takeWhile (fun a => !p a) ∈ (l ++ s).words p := by
  have hword : ∀ a ∈ l ++ s.takeWhile (fun a => !p a), p a = false := by
    intro a ha
    obtain ha | ha := mem_append.mp ha
    · exact h a ha
    · simpa using mem_takeWhile_imp ha
  have hnonempty : l ++ s.takeWhile (fun a => !p a) ≠ [] := append_ne_nil_of_left_ne_nil hne _
  have htext : l ++ s = l ++ s.takeWhile (fun a => !p a) ++ s.dropWhile fun a => !p a := by
    rw [append_assoc, takeWhile_append_dropWhile]
  cases hrest : s.dropWhile fun a => !p a with
  | nil =>
    rw [htext, hrest, append_nil, words_eq_singleton hnonempty hword]
    exact mem_singleton_self _
  | cons c rest =>
    have hc : p c = true := by
      have hhead := head_dropWhile_not (fun a => !p a) (l := s) (by simp [hrest])
      simpa [hrest] using hhead
    rw [htext, hrest, words_append_cons hc, words_eq_singleton hnonempty hword]
    exact mem_append_left _ (mem_singleton_self _)

end List
