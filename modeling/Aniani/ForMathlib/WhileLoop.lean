import Mathlib.Data.List.Chain

/-!
# While loops

`WhileLoop guard next s ss` says that the loop "while `guard`, run the body and go on with `next`"
ends when it is started in `s`, and that `ss` are the states its body runs in. Where `next` gives
nothing the body has left the loop.

## Main results

* `WhileLoop.unique` — a loop runs in one way
* `WhileLoop.isChain` — each state but the first comes from the one before
* `Loop.run_spec` — total correctness of a loop that returns
-/

variable {σ : Type*} {guard : σ → Prop} {next : σ → Option σ}

/-- A run of a loop to its end, with the states its body runs in. -/
inductive WhileLoop (guard : σ → Prop) (next : σ → Option σ) : σ → List σ → Prop
  | exit {s : σ} : ¬ guard s → WhileLoop guard next s []
  | leave {s : σ} : guard s → next s = none → WhileLoop guard next s [s]
  | turn {s s' : σ} {ss : List σ} : guard s → next s = some s' → WhileLoop guard next s' ss →
      WhileLoop guard next s (s :: ss)

namespace WhileLoop

/-- A loop runs in one way. -/
theorem unique {s : σ} {ss ss' : List σ} (h : WhileLoop guard next s ss)
    (h' : WhileLoop guard next s ss') : ss = ss' := by
  induction h generalizing ss' with
  | exit hexit =>
    cases h' with
    | exit => rfl
    | leave hguard => exact absurd hguard hexit
    | turn hguard => exact absurd hguard hexit
  | leave hguard hnone =>
    cases h' with
    | exit hexit => exact absurd hguard hexit
    | leave => rfl
    | turn _ hsome => exact absurd (hnone.symm.trans hsome) (by simp)
  | turn hguard hsome _ ih =>
    cases h' with
    | exit hexit => exact absurd hguard hexit
    | leave _ hnone => exact absurd (hnone.symm.trans hsome) (by simp)
    | turn _ hsome' hrest =>
      obtain rfl := Option.some.inj (hsome.symm.trans hsome')
      rw [ih hrest]

theorem eq_of_mem_head? {s : σ} {ss : List σ} (h : WhileLoop guard next s ss) : ∀ a ∈ ss.head?, a = s := by
  cases h with
  | exit => simp
  | leave => simp
  | turn => simp

/-- Each state but the first comes from the one before. -/
theorem isChain {s : σ} {ss : List σ} (h : WhileLoop guard next s ss) :
    ss.IsChain fun a b => next a = some b := by
  induction h with
  | exit => exact List.isChain_nil
  | @leave s => exact List.isChain_singleton s
  | turn _ hsome hrest ih =>
    refine List.isChain_cons.mpr ⟨fun b hb => ?_, ih⟩
    rw [hrest.eq_of_mem_head? b hb, hsome]

end WhileLoop

/-! ### Loops that return -/

namespace Loop

variable {ρ : Type*} {body : σ → σ ⊕ ρ}

/-- `loop { .. }` for at most so many turns: the body goes on with a state, or returns. -/
def run (body : σ → σ ⊕ ρ) : ℕ → σ → Option ρ
  | 0, _ => none
  | n + 1, s =>
    match body s with
    | .inl s' => run body n s'
    | .inr r => some r

/-- A loop that has returned returns the same when it is given more turns. -/
theorem run_mono {n m : ℕ} (hnm : n ≤ m) {s : σ} {r : ρ} (h : run body n s = some r) :
    run body m s = some r := by
  induction n generalizing m s with
  | zero => exact absurd h (by simp [run])
  | succ n ih =>
    obtain ⟨m, rfl⟩ := Nat.exists_eq_succ_of_ne_zero (Nat.ne_of_gt (Nat.lt_of_lt_of_le n.succ_pos hnm))
    rw [run] at h ⊢
    cases hbody : body s with
    | inl s' =>
      rw [hbody] at h
      exact ih (Nat.le_of_succ_le_succ hnm) h
    | inr r' => rwa [hbody] at h

/-- **Loop rule for total correctness.** When each turn keeps an invariant and makes a measure
smaller, the loop returns within as many turns, and what the body returns under the invariant is what
the loop returns. -/
theorem run_spec {I : σ → Prop} {μ : σ → ℕ} {Q : ρ → Prop}
    (hturn : ∀ s s', I s → body s = .inl s' → I s' ∧ μ s' < μ s)
    (hreturn : ∀ s r, I s → body s = .inr r → Q r) {n : ℕ} {s : σ} (hs : I s) (hn : μ s < n) :
    ∃ r, run body n s = some r ∧ Q r := by
  induction n generalizing s with
  | zero => exact absurd hn (Nat.not_lt_zero _)
  | succ n ih =>
    rw [run]
    cases hbody : body s with
    | inl s' =>
      obtain ⟨hs', hlt⟩ := hturn s s' hs hbody
      exact ih hs' (by omega)
    | inr r => exact ⟨r, rfl, hreturn s r hs hbody⟩

end Loop
