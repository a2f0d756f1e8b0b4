import Mathlib.Data.List.Count
import Mathlib.Data.List.Nodup

/-!
# Signals

A partial signal is read at a list of times: `Signal.sample` lists the times at which it has a
value, with the values. Reading a sample at one of its times is reading the signal there, so
operations on samples that go time by time are operations on signals.

## Main definitions

* `Signal.sample`

## Main results

* `Signal.sample_filter`, `Signal.find?_sample` — a sample at one time
* `Signal.sample_filterMap` — an operation time by time
-/

namespace Signal

variable {ι α β : Type*}

/-- The times of a list at which a signal has a value, with the values. -/
def sample (points : List ι) (g : ι → Option α) : List (ι × α) :=
  points.filterMap fun t => (g t).map fun v => (t, v)

@[simp] theorem sample_nil (g : ι → Option α) : sample [] g = [] := rfl

theorem sample_cons_some {g : ι → Option α} {t : ι} {v : α} (h : g t = some v) (points : List ι) :
    sample (t :: points) g = (t, v) :: sample points g := by simp [sample, h]

theorem sample_cons_none {g : ι → Option α} {t : ι} (h : g t = none) (points : List ι) :
    sample (t :: points) g = sample points g := by simp [sample, h]

theorem mem_sample {points : List ι} {g : ι → Option α} {s : ι × α} :
    s ∈ sample points g ↔ s.1 ∈ points ∧ g s.1 = some s.2 := by
  rw [sample, List.mem_filterMap]
  constructor
  · rintro ⟨t, ht, hs⟩
    obtain ⟨v, hv, rfl⟩ := Option.map_eq_some_iff.mp hs
    exact ⟨ht, hv⟩
  · rintro ⟨ht, hv⟩
    exact ⟨s.1, ht, by rw [hv]; rfl⟩

theorem sample_eq_nil {points : List ι} {g : ι → Option α} :
    sample points g = [] ↔ ∀ t ∈ points, g t = none := by
  rw [sample, List.filterMap_eq_nil_iff]
  exact forall₂_congr fun t _ => Option.map_eq_none_iff

/-- The times of a sample. -/
theorem map_fst_sample (points : List ι) (g : ι → Option α) :
    (sample points g).map Prod.fst = points.filter fun t => (g t).isSome := by
  rw [sample, List.map_filterMap, ← List.filterMap_eq_filter]
  refine List.filterMap_congr fun t _ => ?_
  cases h : g t with
  | none => simp [Option.guard, h]
  | some v => simp [Option.guard, h]

/-- An operation on the values. -/
theorem sample_map (points : List ι) (g : ι → Option α) (f : ι → α → β) :
    (sample points g).map (fun s => (s.1, f s.1 s.2)) = sample points fun t => (g t).map (f t) := by
  rw [sample, List.map_filterMap]
  refine List.filterMap_congr fun t _ => ?_
  rw [Option.map_map, Option.map_map]
  rfl

/-- **An operation time by time**, that may drop a value. -/
theorem sample_filterMap (points : List ι) (g : ι → Option α) (f : ι → α → Option β) :
    (sample points g).filterMap (fun s => (f s.1 s.2).map fun v => (s.1, v)) =
      sample points fun t => (g t).bind (f t) := by
  rw [sample, List.filterMap_filterMap]
  refine List.filterMap_congr fun t _ => ?_
  cases hg : g t with
  | none => simp [hg]
  | some v => simp [hg]

variable [DecidableEq ι]

/-- **A sample at one time** is the sample of that time alone. -/
theorem sample_filter {points : List ι} (hnodup : points.Nodup) {t : ι} (ht : t ∈ points)
    (g : ι → Option α) :
    (sample points g).filter (fun s => s.1 == t) = sample [t] g := by
  have hpoint : points.filter (fun t' => t' == t) = [t] := by
    rw [List.filter_beq, List.count_eq_one_of_mem hnodup ht]
    rfl
  rw [← hpoint, sample, sample, List.filter_filterMap, List.filterMap_filter]
  refine List.filterMap_congr fun t' _ => ?_
  cases g t' with
  | none => by_cases h : t' = t <;> simp [h]
  | some v => by_cases h : t' = t <;> simp [h]

/-- The same for a time that the list may not have. -/
theorem sample_filter_eq {points : List ι} (hnodup : points.Nodup) (t : ι) (g : ι → Option α) :
    (sample points g).filter (fun s => s.1 == t) =
      sample [t] fun t => if t ∈ points then g t else none := by
  by_cases ht : t ∈ points
  · rw [sample_filter hnodup ht]
    refine List.filterMap_congr fun t' ht' => ?_
    obtain rfl := List.mem_singleton.mp ht'
    simp only [if_pos ht]
  · have hnone : sample [t] (fun t => if t ∈ points then g t else none) = [] :=
      sample_eq_nil.mpr fun t' ht' => by rw [List.mem_singleton.mp ht', if_neg ht]
    rw [hnone, List.filter_eq_nil_iff]
    intro s hs heq
    exact ht (eq_of_beq heq ▸ (mem_sample.mp hs).1)

/-- Looking a time up. -/
theorem find?_sample {points : List ι} {t : ι} (ht : t ∈ points) (g : ι → Option α) :
    (sample points g).find? (fun s => s.1 == t) = (g t).map fun v => (t, v) := by
  induction points with
  | nil => exact absurd ht List.not_mem_nil
  | cons t' points ih =>
    by_cases h : t' = t
    · subst h
      cases hg : g t' with
      | none =>
        rw [sample_cons_none hg]
        refine List.find?_eq_none.mpr fun s hs => ?_
        obtain ⟨-, hv⟩ := mem_sample.mp hs
        intro heq
        rw [eq_of_beq heq, hg] at hv
        exact absurd hv (by simp)
      | some v => rw [sample_cons_some hg, List.find?_cons_of_pos (by simp)]; rfl
    · have ht' : t ∈ points := (List.mem_cons.mp ht).resolve_left (Ne.symm h)
      cases hg : g t' with
      | none => rw [sample_cons_none hg, ih ht']
      | some v => rw [sample_cons_some hg, List.find?_cons_of_neg (by simpa using h), ih ht']

end Signal
