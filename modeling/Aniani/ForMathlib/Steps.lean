import Mathlib.Data.List.Basic

/-!
# Programs that share a state

A program that works beside others on a shared state takes it in atomic steps: it looks at the state
as it is at that moment, it asks for a change, and between two of its steps anything may happen.
What it does is told by what it saw and what it asked for, each in order, whatever came in between.

## Main definitions

* `Steps` — a program of atomic steps
* `Steps.Reaches` — what is left of a program that has seen so much and asked for so much
* `Steps.Asks` — a program that asks for the same changes, whatever it sees

## Main results

* `Steps.reaches_bind_done` — a program that goes on with the result of another
* `Steps.Asks.of_reaches` — what is left to be asked for
-/

/-- A program of atomic steps over a state in `σ`, which asks for changes in `ε`. -/
inductive Steps (σ ε α : Type*) where
  | done (a : α)
  | look (next : σ → Steps σ ε α)
  | ask (e : ε) (next : Steps σ ε α)

namespace Steps

universe u v w

variable {σ : Type u} {ε : Type v} {α β : Type w}

/-- One program, and then another that knows its result. -/
def bind : Steps σ ε α → (α → Steps σ ε β) → Steps σ ε β
  | done a, f => f a
  | look next, f => look fun s => (next s).bind f
  | ask e next, f => ask e (next.bind f)

instance : Monad (Steps.{u, v, w} σ ε) where
  pure := done
  bind := bind

@[simp] theorem pure_eq_done (a : α) : (pure a : Steps σ ε α) = done a := rfl

@[simp] theorem bind_eq_bind (p : Steps σ ε α) (f : α → Steps σ ε β) : p >>= f = p.bind f := rfl

@[simp] theorem done_bind (a : α) (f : α → Steps σ ε β) : (done a).bind f = f a := rfl

@[simp] theorem look_bind (next : σ → Steps σ ε α) (f : α → Steps σ ε β) :
    (look next).bind f = look fun s => (next s).bind f := rfl

@[simp] theorem ask_bind (e : ε) (next : Steps σ ε α) (f : α → Steps σ ε β) :
    (ask e next).bind f = ask e (next.bind f) := rfl

/-! ### How far a program has come -/

/-- Having seen `seen` and asked for `asked`, `p` has the last program left to do. -/
inductive Reaches (p : Steps σ ε α) : List σ → List ε → Steps σ ε α → Prop
  | start : Reaches p [] [] p
  | look {seen : List σ} {asked : List ε} {next : σ → Steps σ ε α}
      (h : Reaches p seen asked (look next)) (s : σ) : Reaches p (seen ++ [s]) asked (next s)
  | ask {seen : List σ} {asked : List ε} {e : ε} {next : Steps σ ε α}
      (h : Reaches p seen asked (ask e next)) : Reaches p seen (asked ++ [e]) next

variable {p : Steps σ ε α} {f : α → Steps σ ε β} {seen : List σ} {asked es : List ε}

/-- A program that only hands on the result of another goes as far as it. -/
theorem reaches_bind_done_cases {g : α → β} {q : Steps σ ε β}
    (h : (p.bind fun a => done (g a)).Reaches seen asked q) :
    ∃ q', p.Reaches seen asked q' ∧ q = q'.bind fun a => done (g a) := by
  induction h with
  | start => exact ⟨p, .start, rfl⟩
  | @look seen asked next h s ih =>
    obtain ⟨q', hq', heq⟩ := ih
    cases q' with
    | done a => exact absurd heq nofun
    | look next' =>
      obtain rfl := Steps.look.inj heq
      exact ⟨next' s, hq'.look s, rfl⟩
    | ask e next' => exact absurd heq nofun
  | @ask seen asked e next h ih =>
    obtain ⟨q', hq', heq⟩ := ih
    cases q' with
    | done a => exact absurd heq nofun
    | look next' => exact absurd heq nofun
    | ask e' next' =>
      obtain ⟨rfl, rfl⟩ := Steps.ask.inj heq
      exact ⟨next', hq'.ask, rfl⟩

/-- **A program that only hands on the result of another** ends where the other does. -/
theorem reaches_bind_done {g : α → β} {b : β}
    (h : (p.bind fun a => done (g a)).Reaches seen asked (done b)) :
    ∃ a, p.Reaches seen asked (done a) ∧ b = g a := by
  obtain ⟨q', hq', heq⟩ := reaches_bind_done_cases h
  cases q' with
  | done a => exact ⟨a, hq', Steps.done.inj heq⟩
  | look next => exact absurd heq nofun
  | ask e next => exact absurd heq nofun

/-- A program that is done has seen nothing and asked for nothing. -/
theorem reaches_done {a : α} {q : Steps σ ε α} (h : (done a).Reaches seen asked q) :
    seen = [] ∧ asked = [] ∧ q = done a := by
  induction h with
  | start => exact ⟨rfl, rfl, rfl⟩
  | look h s ih => exact absurd ih.2.2 nofun
  | ask h ih => exact absurd ih.2.2 nofun

/-! ### What a program asks for -/

/-- Whatever it sees, the program asks for these changes, in this order. -/
def Asks : Steps σ ε α → List ε → Prop
  | done _, es => es = []
  | look next, es => ∀ s, (next s).Asks es
  | ask e next, es => ∃ es', es = e :: es' ∧ next.Asks es'

@[simp] theorem asks_done (a : α) : (done a : Steps σ ε α).Asks es ↔ es = [] := Iff.rfl

@[simp] theorem asks_look (next : σ → Steps σ ε α) : (look next).Asks es ↔ ∀ s, (next s).Asks es :=
  Iff.rfl

@[simp] theorem asks_ask_cons {e e' : ε} (next : Steps σ ε α) :
    (ask e next).Asks (e' :: es) ↔ e' = e ∧ next.Asks es := by
  simp [Asks, eq_comm, and_assoc]

/-- Of two programs in turn, the second goes on asking. -/
theorem Asks.bind {es' : List ε} (hp : p.Asks es) (hf : ∀ a, (f a).Asks es') :
    (p.bind f).Asks (es ++ es') := by
  induction p generalizing es with
  | done a =>
    obtain rfl := hp
    exact hf a
  | look next ih => exact fun s => ih s (hp s)
  | ask e next ih =>
    obtain ⟨es, rfl, hnext⟩ := hp
    exact ⟨es ++ es', rfl, ih hnext⟩

theorem Asks.bind_nil (hp : p.Asks []) (hf : ∀ a, (f a).Asks []) : (p.bind f).Asks [] :=
  hp.bind hf

/-- **What is left to be asked for**: what a program has asked for so far comes first among what it
asks for, and the rest of it asks for the rest. -/
theorem Asks.of_reaches {q : Steps σ ε α} (hp : p.Asks es) (h : p.Reaches seen asked q) :
    ∃ rest, es = asked ++ rest ∧ q.Asks rest := by
  induction h with
  | start => exact ⟨es, rfl, hp⟩
  | look h s ih =>
    obtain ⟨rest, heq, hrest⟩ := ih
    exact ⟨rest, heq, hrest s⟩
  | ask h ih =>
    obtain ⟨_, rfl, rest, rfl, hrest⟩ := ih
    exact ⟨rest, List.append_cons _ _ _, hrest⟩

/-- A program that is at its end has asked for all of it. -/
theorem Asks.eq_of_reaches_done {a : α} (hp : p.Asks es) (h : p.Reaches seen asked (done a)) :
    asked = es := by
  obtain ⟨rest, rfl, rfl⟩ := hp.of_reaches h
  exact (List.append_nil asked).symm

end Steps
