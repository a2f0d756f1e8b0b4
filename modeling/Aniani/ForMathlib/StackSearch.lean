import Aniani.ForMathlib.WhileLoop
import Mathlib.Algebra.BigOperators.Group.Finset.Basic
import Mathlib.Data.Fintype.Basic
import Mathlib.Logic.Relation

/-!
# Searching a graph with a stack

The loop pops an item off its stack. An item whose key was seen before is dropped; any other is
visited, which changes what the search has collected and pushes more items. On a finite graph, also
one with cycles, the loop ends once every key in reach was visited.

## Main definitions

* `StackSearch.body` — one turn of the loop
* `StackSearch.Inv` — what holds between two turns

## Main results

* `StackSearch.run_spec` — the loop ends, and has seen what is in reach
-/

namespace StackSearch

variable {ι κ σ : Type*}

/-- The stack with its top first, the keys that were seen, and what was collected. -/
structure State (ι κ σ : Type*) where
  stack : List ι
  seen : Finset κ
  collected : σ

/-- One turn. A visit collects something, and says what is pushed, the top first. -/
def body [DecidableEq κ] (key : ι → κ) (visit : ι → σ → σ × List ι) (s : State ι κ σ) :
    State ι κ σ ⊕ Finset κ × σ :=
  match s.stack with
  | [] => .inr (s.seen, s.collected)
  | i :: stack =>
    if key i ∈ s.seen then .inl { s with stack := stack }
    else .inl ⟨(visit i s.collected).2 ++ stack, insert (key i) s.seen, (visit i s.collected).1⟩

section Body

variable [DecidableEq κ] {key : ι → κ} {visit : ι → σ → σ × List ι} {i : ι} {stack : List ι}
  {seen : Finset κ} {c : σ}

theorem body_of_mem (h : key i ∈ seen) :
    body key visit ⟨i :: stack, seen, c⟩ = .inl ⟨stack, seen, c⟩ := if_pos h

theorem body_of_notMem (h : key i ∉ seen) :
    body key visit ⟨i :: stack, seen, c⟩ =
      .inl ⟨(visit i c).2 ++ stack, insert (key i) seen, (visit i c).1⟩ := if_neg h

end Body

variable {key : ι → κ} (succ : κ → List κ)

/-- One key leads to another. -/
def Leads (a b : κ) : Prop := b ∈ succ a

/-- A key is in reach of some items. -/
def InReach (key : ι → κ) (items : List ι) (k : κ) : Prop :=
  ∃ i ∈ items, Relation.ReflTransGen (Leads succ) (key i) k

/-- What holds between two turns of a search from some items. -/
structure Inv (key : ι → κ) (J : Finset κ → σ → Prop) (items : List ι) (s : State ι κ σ) : Prop where
  collects : J s.seen s.collected
  starts : ∀ i ∈ items, key i ∈ s.seen ∨ key i ∈ s.stack.map key
  goesOn : ∀ a ∈ s.seen, ∀ b ∈ succ a, b ∈ s.seen ∨ b ∈ s.stack.map key
  reached : ∀ k, k ∈ s.seen ∨ k ∈ s.stack.map key → InReach succ key items k

variable {succ} {J : Finset κ → σ → Prop} {items : List ι}

theorem Inv.start {c : σ} (hc : J ∅ c) : Inv succ key J items ⟨items, ∅, c⟩ where
  collects := hc
  starts i hi := .inr (List.mem_map_of_mem hi)
  goesOn a ha := absurd ha (Finset.notMem_empty a)
  reached k hk := by
    obtain ⟨i, hi, rfl⟩ := List.mem_map.mp (hk.resolve_left (Finset.notMem_empty k))
    exact ⟨i, hi, .refl⟩

/-- Dropping an item whose key was seen. -/
theorem Inv.drop {i : ι} {stack : List ι} {seen : Finset κ} {c : σ}
    (h : Inv succ key J items ⟨i :: stack, seen, c⟩) (hseen : key i ∈ seen) :
    Inv succ key J items ⟨stack, seen, c⟩ := by
  have hmove : ∀ k, k ∈ seen ∨ k ∈ (i :: stack).map key → k ∈ seen ∨ k ∈ stack.map key := by
    intro k hk
    rw [List.map_cons, List.mem_cons] at hk
    obtain hk | rfl | hk := hk
    · exact .inl hk
    · exact .inl hseen
    · exact .inr hk
  exact ⟨h.collects, fun j hj => hmove _ (h.starts j hj), fun a ha b hb => hmove b (h.goesOn a ha b hb),
    fun k hk => h.reached k (hk.imp_right (List.mem_cons_of_mem _))⟩

/-- Once the stack is empty, what was seen is what is in reach. -/
theorem Inv.mem_seen_iff {seen : Finset κ} {c : σ} (h : Inv succ key J items ⟨[], seen, c⟩) {k : κ} :
    k ∈ seen ↔ InReach succ key items k := by
  refine ⟨fun hk => h.reached k (.inl hk), ?_⟩
  rintro ⟨i, hi, hpath⟩
  induction hpath with
  | refl => exact (h.starts i hi).resolve_right (by simp)
  | tail _ hstep ih => exact (h.goesOn _ ih _ hstep).resolve_right (by simp)

variable [DecidableEq κ]

/-- Visiting an item. -/
theorem Inv.push {i : ι} {stack pushed : List ι} {seen : Finset κ} {c c' : σ}
    (h : Inv succ key J items ⟨i :: stack, seen, c⟩) (hc : J (insert (key i) seen) c')
    (hpushed : (pushed.map key).Perm (succ (key i))) :
    Inv succ key J items ⟨pushed ++ stack, insert (key i) seen, c'⟩ := by
  have hmove : ∀ k, k ∈ seen ∨ k ∈ (i :: stack).map key →
      k ∈ insert (key i) seen ∨ k ∈ (pushed ++ stack).map key := by
    intro k hk
    rw [List.map_cons, List.mem_cons] at hk
    rw [Finset.mem_insert, List.map_append, List.mem_append]
    obtain hk | rfl | hk := hk
    · exact .inl (.inr hk)
    · exact .inl (.inl rfl)
    · exact .inr (.inr hk)
  have hreach : InReach succ key items (key i) := h.reached _ (.inr (by simp))
  refine ⟨hc, fun j hj => hmove _ (h.starts j hj), fun a ha b hb => ?_, fun k hk => ?_⟩
  · obtain rfl | ha := Finset.mem_insert.mp ha
    · have hmem : b ∈ pushed.map key := hpushed.mem_iff.mpr hb
      exact .inr (by rw [List.map_append]; exact List.mem_append_left _ hmem)
    · exact hmove b (h.goesOn a ha b hb)
  · rw [Finset.mem_insert, List.map_append, List.mem_append] at hk
    obtain (rfl | hk) | hk | hk := hk
    · exact hreach
    · exact h.reached k (.inl hk)
    · obtain ⟨j, hj, hpath⟩ := hreach
      exact ⟨j, hj, hpath.tail (hpushed.mem_iff.mp hk)⟩
    · exact h.reached k (.inr (List.mem_cons_of_mem _ hk))

section Turns

variable [Fintype κ] {visit : ι → σ → σ × List ι}

/-- The turns that are left: the items on the stack, and those that are still to be pushed. -/
def turnsLeft (succ : κ → List κ) (s : State ι κ σ) : ℕ :=
  s.stack.length + ∑ k ∈ Finset.univ \ s.seen, (succ k).length

theorem turnsLeft_visit {i : ι} {stack pushed : List ι} {seen : Finset κ} {c c' : σ}
    (hseen : key i ∉ seen) (hpushed : (pushed.map key).Perm (succ (key i))) :
    turnsLeft succ (⟨pushed ++ stack, insert (key i) seen, c'⟩ : State ι κ σ) <
      turnsLeft succ (⟨i :: stack, seen, c⟩ : State ι κ σ) := by
  have hlength : pushed.length = (succ (key i)).length := by
    rw [← hpushed.length_eq, List.length_map]
  have hmem : key i ∈ Finset.univ \ seen := Finset.mem_sdiff.mpr ⟨Finset.mem_univ _, hseen⟩
  have hsum := Finset.add_sum_erase _ (fun k => (succ k).length) hmem
  rw [turnsLeft, turnsLeft, Finset.sdiff_insert, List.length_append, List.length_cons]
  dsimp only at hsum ⊢
  omega

/-- **The search ends** when it may take a turn for each item that is ever on the stack. What it has
seen then is what is in reach, and what it collects of it keeps the invariant of the visits. -/
theorem run_spec (J : Finset κ → σ → Prop)
    (hvisit : ∀ i seen c, J seen c → key i ∉ seen →
      J (insert (key i) seen) (visit i c).1 ∧ ((visit i c).2.map key).Perm (succ (key i)))
    {c : σ} (hc : J ∅ c) {turns : ℕ}
    (hturns : items.length + ∑ k, (succ k).length < turns) :
    ∃ r, Loop.run (body key visit) turns ⟨items, ∅, c⟩ = some r ∧ J r.1 r.2 ∧
      ∀ k, k ∈ r.1 ↔ InReach succ key items k := by
  refine Loop.run_spec (I := Inv succ key J items) (μ := turnsLeft succ) ?_ ?_ (Inv.start hc) ?_
  · rintro ⟨stack, seen, c⟩ s' h hbody
    cases stack with
    | nil => exact absurd hbody (by simp [body])
    | cons i stack =>
      by_cases hseen : key i ∈ seen
      · rw [body_of_mem hseen] at hbody
        obtain rfl := Sum.inl.inj hbody
        exact ⟨h.drop hseen, by simp [turnsLeft]⟩
      · rw [body_of_notMem hseen] at hbody
        obtain rfl := Sum.inl.inj hbody
        obtain ⟨hc', hpushed⟩ := hvisit i seen c h.collects hseen
        exact ⟨h.push hc' hpushed, turnsLeft_visit hseen hpushed⟩
  · rintro ⟨stack, seen, c⟩ r h hbody
    cases stack with
    | nil =>
      obtain rfl := Sum.inr.inj hbody
      exact ⟨h.collects, fun k => h.mem_seen_iff⟩
    | cons i stack =>
      by_cases hseen : key i ∈ seen
      · exact absurd ((body_of_mem hseen).symm.trans hbody) (by simp)
      · exact absurd ((body_of_notMem hseen).symm.trans hbody) (by simp)
  · simpa [turnsLeft] using hturns

end Turns

end StackSearch
