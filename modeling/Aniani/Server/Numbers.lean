import Aniani.Server.State

/-!
# Where the numbers are

A number goes from the counter to a request in flight, and with its commit into a store. What is
true of every number handed out is therefore true of the numbers in flight and of the numbers in
the stores, and this is the invariant every argument about the counter uses: a property `P` of the
numbers in flight, and a property `Q` of the entries that an entry with such a number has.

## Main definitions

* `Server.handsOut` — the number an event takes from the counter
* `Server.Carries` — the invariant

## Main results

* `Server.step_cases` — what an event does
* `Server.Carries.step`
-/

namespace Aniani

namespace Server

variable {Rodeo Spur F64 : Type} [Float64 F64] [SerdeJson F64]

/-- The number an event takes from the counter. -/
def handsOut (s : Server Rodeo Spur F64) : Event F64 → Option ℕ
  | .stamp i => (s.stamping i).map fun _ => s.state.ingestSeq
  | _ => none

theorem mem_inFlight_of_stamping {s : Server Rodeo Spur F64} {i : ℕ} {r : InFlight F64}
    (h : s.stamping i = some r) : r ∈ s.inFlight :=
  List.mem_of_getElem? (Option.filter_eq_some_iff.mp h).1

theorem mem_inFlight_of_ready {s : Server Rodeo Spur F64} {i : ℕ} {r : InFlight F64}
    (h : s.ready i = some r) : r ∈ s.inFlight ∧ r.numbers.length = r.request.count :=
  ⟨List.mem_of_getElem? (Option.filter_eq_some_iff.mp h).1,
    of_decide_eq_true (Option.filter_eq_some_iff.mp h).2⟩

variable [LinearOrder Spur] [Interner Rodeo Spur]

/-- **What an event does.** A request arrives, takes a number, or is committed; anything else
stores nothing and touches neither the counter nor the requests. -/
theorem step_cases (s : Server Rodeo Spur F64) (ev : Event F64) :
    (∃ request, s.handsOut ev = none ∧
      s.step ev = { s with inFlight := s.inFlight ++ [⟨request, []⟩] }) ∨
    (∃ i r, s.stamping i = some r ∧ s.handsOut ev = some s.state.ingestSeq ∧
      s.step ev =
        { state := { s.state with ingestSeq := (s.state.ingestSeq + 1) % 2 ^ 64 }
          inFlight := s.inFlight.set i { r with numbers := r.numbers ++ [s.state.ingestSeq] } }) ∨
    (∃ i r, s.ready i = some r ∧ s.handsOut ev = none ∧
      s.step ev = { s.setStores (s.state.ingest (fun n => r.numbers.getD n 0) r.request) with
        inFlight := s.inFlight.eraseIdx i }) ∨
    (s.handsOut ev = none ∧ ∃ stores : Stores Rodeo Spur F64,
      (∀ e, stores.Holds e → s.state.Holds e) ∧ s.step ev = s.setStores stores) := by
  have hidle : ∃ stores : Stores Rodeo Spur F64,
      (∀ e, stores.Holds e → s.state.Holds e) ∧ s = s.setStores stores :=
    ⟨s.state.toStores, fun _ h => h, rfl⟩
  cases ev with
  | arrive request => exact .inl ⟨request, rfl, rfl⟩
  | stamp i =>
    rw [step, handsOut]
    cases hr : s.stamping i with
    | none => exact .inr (.inr (.inr ⟨rfl, hidle⟩))
    | some r => exact .inr (.inl ⟨i, r, hr, rfl, rfl⟩)
  | commit i =>
    rw [step]
    cases hr : s.ready i with
    | none => exact .inr (.inr (.inr ⟨rfl, hidle⟩))
    | some r => exact .inr (.inr (.inl ⟨i, r, hr, rfl, rfl⟩))
  | removeLogs it r =>
    exact .inr (.inr (.inr ⟨rfl, _, fun _ => Stores.holds_removeLogs, rfl⟩))
  | removeMetrics it r =>
    exact .inr (.inr (.inr ⟨rfl, _, fun _ => Stores.holds_removeMetrics, rfl⟩))
  | removeTraces it r =>
    exact .inr (.inr (.inr ⟨rfl, _, fun _ => Stores.holds_removeTraces, rfl⟩))

/-- The counter moves when a number is taken, and wraps around. -/
theorem ingestSeq_step (s : Server Rodeo Spur F64) (ev : Event F64) :
    (s.step ev).state.ingestSeq =
      if s.handsOut ev = none then s.state.ingestSeq else (s.state.ingestSeq + 1) % 2 ^ 64 := by
  obtain ⟨_, hout, heq⟩ | ⟨_, _, _, hout, heq⟩ | ⟨_, _, _, hout, heq⟩ | ⟨hout, _, _, heq⟩ :=
    s.step_cases ev <;> rw [heq, hout] <;> rfl

/-- Only the counter hands out numbers. -/
theorem eq_of_handsOut {s : Server Rodeo Spur F64} {ev : Event F64} {n : ℕ}
    (h : s.handsOut ev = some n) : n = s.state.ingestSeq := by
  obtain ⟨_, hout, -⟩ | ⟨_, _, _, hout, -⟩ | ⟨_, _, _, hout, -⟩ | ⟨hout, -⟩ := s.step_cases ev <;>
    rw [hout] at h
  · simp at h
  · exact (Option.some.inj h).symm
  · simp at h
  · simp at h

/-! ### The invariant -/

omit [LinearOrder Spur] [Interner Rodeo Spur] [Float64 F64] [SerdeJson F64] in
/-- The numbers in flight satisfy `P`, and the stored entries satisfy `Q`. -/
structure Carries (s : Server Rodeo Spur F64) (P : ℕ → Prop) (Q : Entry Spur F64 → Prop) :
    Prop where
  inFlight : ∀ r ∈ s.inFlight, ∀ n ∈ r.numbers, P n
  stored : ∀ e, s.state.Holds e → Q e

omit [LinearOrder Spur] [Interner Rodeo Spur] [Float64 F64] [SerdeJson F64] in
theorem Carries.mono {s : Server Rodeo Spur F64} {P P' : ℕ → Prop} {Q Q' : Entry Spur F64 → Prop}
    (h : s.Carries P Q) (hP : ∀ n, P n → P' n) (hQ : ∀ e, Q e → Q' e) : s.Carries P' Q' :=
  ⟨fun r hr n hn => hP n (h.inFlight r hr n hn), fun e he => hQ e (h.stored e he)⟩

/-- **Step rule.** If the number an event takes satisfies `P`, and an entry with a number that does
satisfies `Q`, the invariant is kept. -/
theorem Carries.step {s : Server Rodeo Spur F64} {P : ℕ → Prop} {Q : Entry Spur F64 → Prop}
    (h : s.Carries P Q) (hPQ : ∀ e, P e.ingestSeq → Q e) {ev : Event F64}
    (hout : ∀ n, s.handsOut ev = some n → P n) : (s.step ev).Carries P Q := by
  obtain ⟨request, -, heq⟩ | ⟨i, r, hr, hn, heq⟩ | ⟨i, r, hr, -, heq⟩ | ⟨-, stores, hsub, heq⟩ :=
    s.step_cases ev <;> rw [heq]
  · refine ⟨fun r' hr' n hn => ?_, h.stored⟩
    rcases List.mem_append.mp hr' with hr' | hr'
    · exact h.inFlight r' hr' n hn
    · obtain rfl := List.mem_singleton.mp hr'
      simp at hn
  · refine ⟨fun r' hr' n hn' => ?_, h.stored⟩
    rcases List.mem_or_eq_of_mem_set hr' with hr' | rfl
    · exact h.inFlight r' hr' n hn'
    · rcases List.mem_append.mp hn' with hn' | hn'
      · exact h.inFlight r (mem_inFlight_of_stamping hr) n hn'
      · exact hout n (hn.trans (congr_arg some (List.mem_singleton.mp hn').symm))
  · obtain ⟨hmem, hlen⟩ := mem_inFlight_of_ready hr
    refine ⟨fun r' hr' => h.inFlight r' (List.mem_of_mem_eraseIdx hr'), fun e he => ?_⟩
    rcases Stores.holds_ingest he with he | ⟨n, hlt, hseq⟩
    · exact h.stored e he
    · -- the `n`-th number of the request is one it has taken
      have hlt : n < r.numbers.length := hlen.symm ▸ hlt
      refine hPQ e ?_
      rw [hseq, List.getD_eq_getElem?_getD, List.getElem?_eq_getElem hlt, Option.getD_some]
      exact h.inFlight r hmem _ (List.getElem_mem hlt)
  · exact ⟨h.inFlight, fun e he => h.stored e (hsub e he)⟩

end Server

end Aniani
