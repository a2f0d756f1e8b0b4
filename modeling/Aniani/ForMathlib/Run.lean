import Mathlib.Data.List.Basic

/-!
# Runs of a step function

A program driven by a list of operations is the left fold of its step function. This file packages
the one induction such a development needs, in the forms it is used in: an invariant that every step
preserves, an invariant preserved by the steps that meet a side condition, along a run all of whose
steps meet it, a side condition that is exact, and an invariant that holds as long as a supply
lasts.

## Main definitions

* `Run.exec` — the state a list of operations leads to
* `Run.Along` — every step of a run, at the state it is taken in, meets a condition
* `Run.cost` — what the steps of a run use up of a bounded supply

## Main results

* `Run.exec_invariant`, `Run.exec_invariant_along`, `Run.exec_invariant_cost`
* `Run.exec_invariant_room`, `Run.exec_simulation_cost`, `Run.exists_exec_of_simulation`
* `Run.along_iff_along`, `Run.exec_iff_exists_adds`
-/

namespace Run

variable {σ ι : Type*}

/-- The state reached from `s` by taking the steps of `ops` in order. -/
def exec (step : σ → ι → σ) (s : σ) (ops : List ι) : σ := ops.foldl step s

@[simp] theorem exec_nil (step : σ → ι → σ) (s : σ) : exec step s [] = s := rfl

@[simp] theorem exec_cons (step : σ → ι → σ) (s : σ) (op : ι) (ops : List ι) :
    exec step s (op :: ops) = exec step (step s op) ops := rfl

theorem exec_append (step : σ → ι → σ) (s : σ) (ops ops' : List ι) :
    exec step s (ops ++ ops') = exec step (exec step s ops) ops' := List.foldl_append

/-- **Run rule.** What every step preserves, every run preserves. -/
theorem exec_invariant {step : σ → ι → σ} {P : σ → Prop} (hstep : ∀ s op, P s → P (step s op))
    {s : σ} (hs : P s) (ops : List ι) : P (exec step s ops) := by
  induction ops generalizing s with
  | nil => exact hs
  | cons op ops ih => exact ih (hstep s op hs)

/-- Every step of the run from `s` meets `C` at the state it is taken in. -/
def Along (step : σ → ι → σ) (C : σ → ι → Prop) : σ → List ι → Prop
  | _, [] => True
  | s, op :: ops => C s op ∧ Along step C (step s op) ops

@[simp] theorem along_nil (step : σ → ι → σ) (C : σ → ι → Prop) (s : σ) :
    Along step C s [] := trivial

@[simp] theorem along_cons (step : σ → ι → σ) (C : σ → ι → Prop) (s : σ) (op : ι) (ops : List ι) :
    Along step C s (op :: ops) ↔ C s op ∧ Along step C (step s op) ops := Iff.rfl

theorem along_append {step : σ → ι → σ} {C : σ → ι → Prop} {s : σ} {ops ops' : List ι} :
    Along step C s (ops ++ ops') ↔ Along step C s ops ∧ Along step C (exec step s ops) ops' := by
  induction ops generalizing s with
  | nil => simp
  | cons op ops ih => simp [ih, and_assoc]

theorem Along.mono {step : σ → ι → σ} {C D : σ → ι → Prop} (hCD : ∀ s op, C s op → D s op)
    {s : σ} {ops : List ι} (h : Along step C s ops) : Along step D s ops := by
  induction ops generalizing s with
  | nil => trivial
  | cons op ops ih => exact ⟨hCD s op h.1, ih h.2⟩

theorem Along.and {step : σ → ι → σ} {C D : σ → ι → Prop} {s : σ} {ops : List ι}
    (hC : Along step C s ops) (hD : Along step D s ops) :
    Along step (fun s op => C s op ∧ D s op) s ops := by
  induction ops generalizing s with
  | nil => trivial
  | cons op ops ih => exact ⟨⟨hC.1, hD.1⟩, ih hC.2 hD.2⟩

theorem along_true (step : σ → ι → σ) (s : σ) (ops : List ι) :
    Along step (fun _ _ => True) s ops := by
  induction ops generalizing s with
  | nil => trivial
  | cons op ops ih => exact ⟨trivial, ih _⟩

/-- A condition that does not look at the state. -/
theorem along_of_forall_mem {step : σ → ι → σ} {P : ι → Prop} {s : σ} {ops : List ι}
    (h : ∀ op ∈ ops, P op) : Along step (fun _ op => P op) s ops := by
  induction ops generalizing s with
  | nil => trivial
  | cons op ops ih =>
    exact ⟨h op List.mem_cons_self, ih fun op' hop => h op' (List.mem_cons_of_mem _ hop)⟩

/-- A condition on one part of the state is a condition on the run of that part. -/
theorem along_map {τ : Type*} {step : σ → ι → σ} {step' : τ → ι → τ} {f : σ → τ}
    (hf : ∀ s op, f (step s op) = step' (f s) op) (C : τ → ι → Prop) (s : σ) (ops : List ι) :
    Along step (fun s op => C (f s) op) s ops ↔ Along step' C (f s) ops := by
  induction ops generalizing s with
  | nil => exact Iff.rfl
  | cons op ops ih => rw [along_cons, along_cons, ih, hf]

/-- **Run rule with a side condition.** What every step that meets `C` preserves, every run along
`C` preserves. -/
theorem exec_invariant_along {step : σ → ι → σ} {C : σ → ι → Prop} {P : σ → Prop}
    (hstep : ∀ s op, C s op → P s → P (step s op)) {s : σ} (hs : P s) {ops : List ι}
    (hC : Along step C s ops) : P (exec step s ops) := by
  induction ops generalizing s with
  | nil => exact hs
  | cons op ops ih => exact ih (hstep s op hC.1 hs) hC.2

/-- **Run rule for an exact condition.** If at a state with the invariant a step that meets `A` has
`D` exactly when it meets `C`, and then keeps the invariant, the same is true of the run. -/
theorem along_iff_along {step : σ → ι → σ} {A C D : σ → ι → Prop} {P : σ → Prop}
    (hiff : ∀ s op, A s op → P s → (D s op ↔ C s op))
    (hstep : ∀ s op, A s op → C s op → P s → P (step s op)) {s : σ} (hs : P s) {ops : List ι}
    (hA : Along step A s ops) : Along step D s ops ↔ Along step C s ops := by
  induction ops generalizing s with
  | nil => exact Iff.rfl
  | cons op ops ih =>
    rw [along_cons, along_cons, hiff s op hA.1 hs]
    exact and_congr_right fun hC => ih (hstep s op hA.1 hC hs) hA.2

/-- What a run uses up, when step `op` at state `s` uses up `f s op`. -/
def cost (step : σ → ι → σ) (f : σ → ι → ℕ) : σ → List ι → ℕ
  | _, [] => 0
  | s, op :: ops => f s op + cost step f (step s op) ops

/-- **Run rule with a supply.** `used` measures how much of a supply of `bound` is gone. An invariant
that every step within the supply preserves holds after every run within the supply. -/
theorem exec_invariant_cost {step : σ → ι → σ} {f : σ → ι → ℕ} {used : σ → ℕ} {bound : ℕ}
    {P : σ → Prop} (hstep : ∀ s op, used s + f s op ≤ bound → P s → P (step s op))
    (hused : ∀ s op, used s + f s op ≤ bound → P s → used (step s op) ≤ used s + f s op)
    {s : σ} (hs : P s) {ops : List ι} (hcost : used s + cost step f s ops ≤ bound) :
    P (exec step s ops) := by
  induction ops generalizing s with
  | nil => exact hs
  | cons op ops ih =>
    rw [cost] at hcost
    have hop : used s + f s op ≤ bound := by omega
    have := hused s op hop hs
    exact ih (hstep s op hop hs) (by omega)

/-- **The first part of a run** keeps the invariant and leaves the supply for the second. -/
theorem exec_invariant_room {step : σ → ι → σ} {f : σ → ι → ℕ} {used : σ → ℕ} {bound : ℕ}
    {P : σ → Prop} (hstep : ∀ s op, used s + f s op ≤ bound → P s → P (step s op))
    (hused : ∀ s op, used s + f s op ≤ bound → P s → used (step s op) ≤ used s + f s op)
    {s : σ} (hs : P s) {ops ops' : List ι} (hcost : used s + cost step f s (ops ++ ops') ≤ bound) :
    P (exec step s ops) ∧
      used (exec step s ops) + cost step f (exec step s ops) ops' ≤ bound := by
  induction ops generalizing s with
  | nil => exact ⟨hs, hcost⟩
  | cons op ops ih =>
    rw [List.cons_append, cost] at hcost
    have hop : used s + f s op ≤ bound := by omega
    have := hused s op hop hs
    exact ih (hstep s op hop hs) (by omega)

/-- **Simulation rule with a supply.** Two systems take matching steps. A relation between their
states that matching steps within the supply of the first preserve holds after matching runs within
the supply. -/
theorem exec_simulation_cost {τ κ : Type*} {step : σ → ι → σ} {step' : τ → κ → τ}
    {f : σ → ι → ℕ} {used : σ → ℕ} {bound : ℕ} {M : ι → κ → Prop} {R : σ → τ → Prop}
    (hstep : ∀ s t op op', M op op' → used s + f s op ≤ bound → R s t →
      R (step s op) (step' t op') ∧ used (step s op) ≤ used s + f s op)
    {s : σ} {t : τ} (hs : R s t) {ops : List ι} {ops' : List κ} (hops : List.Forall₂ M ops ops')
    (hcost : used s + cost step f s ops ≤ bound) : R (exec step s ops) (exec step' t ops') := by
  induction hops generalizing s t with
  | nil => exact hs
  | cons hop _ ih =>
    rw [cost] at hcost
    obtain ⟨hR, hused⟩ := hstep s t _ _ hop (by omega) hs
    exact ih hR (by omega)

/-- **Simulation rule with steps left out or put in.** If a step that meets `C` is matched by some
steps of another system, a run along `C` is matched by a run of the other. -/
theorem exists_exec_of_simulation {τ κ : Type*} {step : σ → ι → σ} {step' : τ → κ → τ}
    {C : σ → ι → Prop} {R : σ → τ → Prop}
    (hstep : ∀ s t op, C s op → R s t → ∃ ops', R (step s op) (exec step' t ops')) {s : σ} {t : τ}
    (hs : R s t) {ops : List ι} (hC : Along step C s ops) :
    ∃ ops', R (exec step s ops) (exec step' t ops') := by
  induction ops generalizing s t with
  | nil => exact ⟨[], hs⟩
  | cons op ops ih =>
    obtain ⟨ops₁, h₁⟩ := hstep s t op hC.1 hs
    obtain ⟨ops₂, h₂⟩ := ih h₁ hC.2
    exact ⟨ops₁ ++ ops₂, by rwa [exec_append]⟩

/-- **History rule.** If a property holds after a step when the step adds it, or when it held and
the step spares it, then it holds after a run when it held and all steps spare it, or when some step
adds it that only steps that spare it come after. -/
theorem exec_iff_exists_adds {step : σ → ι → σ} {C Adds : σ → ι → Prop} {I P : σ → Prop}
    {Spares : ι → Prop} (hI : ∀ s op, C s op → I s → I (step s op))
    (hP : ∀ s op, C s op → I s → (P (step s op) ↔ Adds s op ∨ P s ∧ Spares op)) {s : σ} (hs : I s)
    {ops : List ι} (hC : Along step C s ops) :
    P (exec step s ops) ↔ (P s ∧ ∀ op ∈ ops, Spares op) ∨ ∃ before op after,
      ops = before ++ op :: after ∧ Adds (exec step s before) op ∧ ∀ op' ∈ after, Spares op' := by
  induction ops generalizing s with
  | nil => simp
  | cons op ops ih =>
    rw [exec_cons, ih (hI s op hC.1 hs) hC.2, hP s op hC.1 hs, List.forall_mem_cons]
    constructor
    · rintro (⟨hadds | ⟨hold, hspares⟩, hall⟩ | ⟨before, op', after, rfl, hadds, hall⟩)
      · exact .inr ⟨[], op, ops, rfl, hadds, hall⟩
      · exact .inl ⟨hold, hspares, hall⟩
      · exact .inr ⟨op :: before, op', after, rfl, hadds, hall⟩
    · rintro (⟨hold, hspares, hall⟩ | ⟨before, op', after, heq, hadds, hall⟩)
      · exact .inl ⟨.inr ⟨hold, hspares⟩, hall⟩
      · cases before with
        | nil =>
          obtain ⟨rfl, rfl⟩ := List.cons.inj heq
          exact .inl ⟨.inl hadds, hall⟩
        | cons op₀ before =>
          obtain ⟨rfl, rfl⟩ := List.cons.inj heq
          exact .inr ⟨before, op', after, rfl, hadds, hall⟩

end Run
