import Aniani.ForMathlib.Run
import Mathlib.Algebra.Order.Group.Multiset
import Mathlib.Data.Multiset.Filter

/-!
# Journals

What a store of elements is for, apart from how it is laid out: a multiset. Batches are added to it,
what does not pass a test is dropped, and now and then it is trimmed, which loses elements in a way
that is left open but for a relation between before and after.

A journal is described by the operations asked of it. After any of them it is part of what was added
and passed every test since, and if no trim lost anything it is all of that. A program refines a
journal if each of its steps is an operation on the multiset it stands for, and then so is each of
its runs.

## Main definitions

* `Journal.Op`, `Journal.Step`, `Journal.Runs` — operations, and what they may do
* `Journal.Whole` — elements go by groups
* `Journal.Passes`, `Journal.history` — what was added and passed every later test
* `Run.labels`, `Run.emitted` — a run of a program, as what its steps ask, or give out

## Main results

* `Journal.Runs.le_history` — what is there was added, and passed every test since
* `Journal.runs_of_step`, `Run.exec_emitted` — from steps to runs
* `Journal.eq_history_of_step` — nothing else is lost, where no trim takes anything
-/

namespace Run

variable {σ ι ω : Type*}

/-- What the steps of a run ask, each at the state it is taken in. -/
def labels (step : σ → ι → σ) (f : σ → ι → ω) : σ → List ι → List ω
  | _, [] => []
  | s, op :: ops => f s op :: labels step f (step s op) ops

theorem labels_concat (step : σ → ι → σ) (f : σ → ι → ω) (s : σ) (ops : List ι) (op : ι) :
    labels step f s (ops ++ [op]) = labels step f s ops ++ [f (exec step s ops) op] := by
  induction ops generalizing s with
  | nil => rfl
  | cons op' ops ih => rw [List.cons_append, labels, labels, ih, exec_cons, List.cons_append]

theorem length_labels (step : σ → ι → σ) (f : σ → ι → ω) (s : σ) (ops : List ι) :
    (labels step f s ops).length = ops.length := by
  induction ops generalizing s with
  | nil => rfl
  | cons op ops ih => rw [labels, List.length_cons, ih, List.length_cons]

/-- What the steps of a run give out, one after another. -/
def emitted (step : σ → ι → σ) (f : σ → ι → List ω) : σ → List ι → List ω
  | _, [] => []
  | s, op :: ops => f s op ++ emitted step f (step s op) ops

theorem emitted_concat (step : σ → ι → σ) (f : σ → ι → List ω) (s : σ) (ops : List ι) (op : ι) :
    emitted step f s (ops ++ [op]) = emitted step f s ops ++ f (exec step s ops) op := by
  induction ops generalizing s with
  | nil => exact List.append_nil _
  | cons op' ops ih => rw [List.cons_append, emitted, emitted, ih, List.append_assoc, exec_cons]

/-- **Refinement rule for a part.** If a part of the state goes through the steps that are given
out, at each step, it goes through all of them in a run. -/
theorem exec_emitted {τ : Type*} {step : σ → ι → σ} {step' : τ → ω → τ} {f : σ → ι → List ω}
    {A : σ → τ} (h : ∀ s op, A (step s op) = exec step' (A s) (f s op)) (s : σ) (ops : List ι) :
    A (exec step s ops) = exec step' (A s) (emitted step f s ops) := by
  induction ops generalizing s with
  | nil => rfl
  | cons op ops ih => rw [exec_cons, ih, h, emitted, exec_append]

end Run

namespace Journal

variable {ε : Type*}

/-- What is asked of a journal. -/
inductive Op (ε : Type*) where
  | add (batch : Multiset ε)
  /-- Drop what does not pass a test. -/
  | keep (p : ε → Prop)
  /-- Lose elements, so that a relation holds between before and after. -/
  | trim (R : Multiset ε → Multiset ε → Prop)

/-- What an operation may do. -/
inductive Step : Op ε → Multiset ε → Multiset ε → Prop
  | add (batch j : Multiset ε) : Step (.add batch) j (j + batch)
  | keep (p : ε → Prop) [DecidablePred p] (j : Multiset ε) : Step (.keep p) j (j.filter p)
  | trim {R : Multiset ε → Multiset ε → Prop} {j j' : Multiset ε} (hle : j' ≤ j) (hR : R j j') :
    Step (.trim R) j j'

/-- What one operation after another may do. -/
inductive Runs : Multiset ε → List (Op ε) → Multiset ε → Prop
  | nil (j : Multiset ε) : Runs j [] j
  | cons {op : Op ε} {ops : List (Op ε)} {j j' j'' : Multiset ε} (h : Step op j j')
    (hs : Runs j' ops j'') : Runs j (op :: ops) j''

/-- All elements with a key are left, or none of them. -/
def Whole {κ : Type*} (key : ε → κ) (j j' : Multiset ε) : Prop :=
  ∃ left : κ → Bool, j' = j.filter fun x => left (key x) = true

theorem Whole.le {κ : Type*} {key : ε → κ} {j j' : Multiset ε} (h : Whole key j j') : j' ≤ j := by
  obtain ⟨left, rfl⟩ := h
  exact Multiset.filter_le _ _

/-- Nothing to add. -/
theorem step_add_zero (j : Multiset ε) : Step (.add 0) j j := by
  have h := Step.add 0 j
  rwa [add_zero] at h

theorem step_keep {p : ε → Prop} [DecidablePred p] {j j' : Multiset ε} (h : j' = j.filter p) :
    Step (.keep p) j j' := h ▸ .keep p j

/-! ### What passed every test -/

/-- An element passes all the tests. -/
def Passes (ops : List (Op ε)) (x : ε) : Prop := ∀ p, .keep p ∈ ops → p x

theorem passes_nil (x : ε) : Passes ([] : List (Op ε)) x := fun _ h => absurd h List.not_mem_nil

theorem passes_cons {op : Op ε} {ops : List (Op ε)} {x : ε} :
    Passes (op :: ops) x ↔ (∀ p, op = .keep p → p x) ∧ Passes ops x := by
  constructor
  · intro h
    exact ⟨fun p hp => h p (hp ▸ List.mem_cons_self), fun p hp => h p (List.mem_cons_of_mem _ hp)⟩
  · rintro ⟨hop, hops⟩ p hp
    rcases List.mem_cons.mp hp with heq | hp
    · exact hop p heq.symm
    · exact hops p hp

/-- What an operation adds. -/
def Op.batch : Op ε → Multiset ε
  | .add batch => batch
  | _ => 0

section History

open Classical

/-- What was added, and passed every test that came later. -/
noncomputable def history : List (Op ε) → Multiset ε
  | [] => 0
  | op :: ops => op.batch.filter (Passes ops) + history ops

/-- Nothing is left that was not added. -/
theorem history_le (ops : List (Op ε)) : history ops ≤ (ops.map Op.batch).sum := by
  induction ops with
  | nil => exact le_rfl
  | cons op ops ih =>
    rw [history, List.map_cons, List.sum_cons]
    exact add_le_add (Multiset.filter_le _ _) ih

theorem mem_history {ops : List (Op ε)} {x : ε} : x ∈ history ops ↔ ∃ before batch after,
    ops = before ++ .add batch :: after ∧ x ∈ batch ∧ Passes after x := by
  induction ops with
  | nil => simp [history]
  | cons op ops ih =>
    rw [history, Multiset.mem_add, Multiset.mem_filter, ih]
    constructor
    · rintro (⟨hbatch, hpass⟩ | ⟨before, batch, after, rfl, hx⟩)
      · cases op with
        | add batch => exact ⟨[], batch, ops, rfl, hbatch, hpass⟩
        | keep p => exact absurd hbatch (Multiset.notMem_zero x)
        | trim R => exact absurd hbatch (Multiset.notMem_zero x)
      · exact ⟨op :: before, batch, after, rfl, hx⟩
    · rintro ⟨before, batch, after, heq, hx, hpass⟩
      rcases List.cons_eq_append_iff.mp heq with ⟨rfl, h⟩ | ⟨before', rfl, rfl⟩
      · obtain ⟨rfl, rfl⟩ := List.cons.inj h
        exact .inl ⟨hx, hpass⟩
      · exact .inr ⟨before', batch, after, rfl, hx, hpass⟩

/-- What is left after an operation and passes the later tests passed this one too. -/
theorem Step.filter_le {op : Op ε} {j j' : Multiset ε} (h : Step op j j') (ops : List (Op ε)) :
    j'.filter (Passes ops) ≤ j.filter (Passes (op :: ops)) + op.batch.filter (Passes ops) := by
  cases h with
  | add batch j =>
    rw [Multiset.filter_add]
    refine le_of_eq (congrArg (· + _) (Multiset.filter_congr fun x _ => ?_))
    simp [passes_cons]
  | keep p j =>
    rw [Multiset.filter_filter]
    refine (le_of_eq (Multiset.filter_congr fun x _ => ?_)).trans (Multiset.le_add_right _ _)
    simp [passes_cons, and_comm]
  | @trim R _ _ hle hR =>
    refine (Multiset.filter_le_filter _ hle).trans ?_
    refine (le_of_eq (Multiset.filter_congr fun x _ => ?_)).trans (Multiset.le_add_right _ _)
    simp [passes_cons]

/-- And if a trim loses nothing, all of that is left. -/
theorem Step.filter_eq {op : Op ε} {j j' : Multiset ε} (h : Step op j j') (ops : List (Op ε))
    (htrim : ∀ R, op = .trim R → j' = j) :
    j'.filter (Passes ops) = j.filter (Passes (op :: ops)) + op.batch.filter (Passes ops) := by
  cases h with
  | add batch j =>
    rw [Multiset.filter_add]
    refine congrArg (· + _) (Multiset.filter_congr fun x _ => ?_)
    simp [passes_cons]
  | keep p j =>
    rw [Multiset.filter_filter, Op.batch, Multiset.filter_zero, add_zero]
    · refine Multiset.filter_congr fun x _ => ?_
      simp [passes_cons, and_comm]
    · simp
  | @trim R _ _ hle hR =>
    rw [htrim R rfl, Op.batch, Multiset.filter_zero, add_zero]
    · refine Multiset.filter_congr fun x _ => ?_
      simp [passes_cons]
    · simp

/-- **What is there was added, and passed every test since.** -/
theorem Runs.le_history {ops : List (Op ε)} {j j' : Multiset ε} (h : Runs j ops j') :
    j' ≤ j.filter (Passes ops) + history ops := by
  induction h with
  | nil j =>
    rw [Multiset.filter_eq_self.mpr fun x _ => passes_nil x]
    exact Multiset.le_add_right j _
  | @cons op ops j₁ j₂ j₃ hstep _ ih =>
    rw [history, ← add_assoc]
    exact ih.trans (add_le_add_left (hstep.filter_le ops) _)

end History

/-! ### Programs -/

section Programs

variable {σ ι : Type*} {step : σ → ι → σ} {C : σ → ι → Prop} {I : σ → Prop} {f : σ → ι → Op ε}
  {A : σ → Multiset ε}

/-- **Refinement rule.** If each step of a program does what its label asks of the multiset the
state stands for, a run of the program is a run of the journal. -/
theorem runs_of_step (hI : ∀ s op, C s op → I s → I (step s op))
    (hstep : ∀ s op, C s op → I s → Step (f s op) (A s) (A (step s op))) {s : σ} (hs : I s)
    {ops : List ι} (hC : Run.Along step C s ops) :
    Runs (A s) (Run.labels step f s ops) (A (Run.exec step s ops)) := by
  induction ops generalizing s with
  | nil => exact .nil _
  | cons op ops ih => exact .cons (hstep s op hC.1 hs) (ih (hI s op hC.1 hs) hC.2)

open Classical in
/-- **Nothing else is lost**, in a run whose trims take nothing. -/
theorem eq_add_history_of_step (hI : ∀ s op, C s op → I s → I (step s op))
    (hstep : ∀ s op, C s op → I s → Step (f s op) (A s) (A (step s op)))
    (htrim : ∀ s op R, C s op → f s op = .trim R → A (step s op) = A s) {s : σ} (hs : I s)
    {ops : List ι} (hC : Run.Along step C s ops) :
    A (Run.exec step s ops) = (A s).filter (Passes (Run.labels step f s ops)) +
      history (Run.labels step f s ops) := by
  induction ops generalizing s with
  | nil =>
    rw [Run.labels, Multiset.filter_eq_self.mpr fun x _ => passes_nil x]
    exact (add_zero _).symm
  | cons op ops ih =>
    have hone := (hstep s op hC.1 hs).filter_eq (Run.labels step f (step s op) ops)
      fun R hR => htrim s op R hC.1 hR
    refine (ih (hI s op hC.1 hs) hC.2).trans ?_
    rw [Run.labels, history, hone, add_assoc]

theorem eq_history_of_step (hI : ∀ s op, C s op → I s → I (step s op))
    (hstep : ∀ s op, C s op → I s → Step (f s op) (A s) (A (step s op)))
    (htrim : ∀ s op R, C s op → f s op = .trim R → A (step s op) = A s) {s : σ} (hs : I s)
    (hempty : A s = 0) {ops : List ι} (hC : Run.Along step C s ops) :
    A (Run.exec step s ops) = history (Run.labels step f s ops) := by
  rw [eq_add_history_of_step hI hstep htrim hs hC, hempty, Multiset.filter_zero, zero_add]

end Programs

end Journal
