import Mathlib.Data.List.Basic
import Mathlib.Order.Defs.LinearOrder

/-!
# The string interner

The stores keep strings in a `lasso::Rodeo` and handle its keys. The crate is not part of the
repository, so the interner is a parameter: a type `Rodeo` of interners and an ordered type `Spur`
of keys, with what the crate documents about the four operations the stores call. Nothing is
assumed about the order of the keys, which the stores sort label sets by.

`resolve` is total here, where the crate panics on a key of another interner; what it returns for
such a key is left open.

## Main definitions

* `Interner` — the operations and their laws
* `VecRodeo` — an interner that numbers the strings in the order they arrive, for evaluation
-/

namespace Aniani

/-- `lasso::Rodeo` by its documented behaviour. -/
class Interner (Rodeo : Type) (Spur : outParam Type) where
  /-- `Rodeo::default()`. -/
  empty : Rodeo
  /-- The key of a string, when it has been interned. -/
  get : Rodeo → String → Option Spur
  /-- The key of a string, interned if it has not been. -/
  getOrIntern : Rodeo → String → Spur × Rodeo
  /-- The string of a key. -/
  resolve : Rodeo → Spur → String
  get_empty : ∀ s, get empty s = none
  get_getOrIntern : ∀ r s t,
    get (getOrIntern r s).2 t = if t = s then some (getOrIntern r s).1 else get r t
  getOrIntern_of_get : ∀ {r s k}, get r s = some k → (getOrIntern r s).1 = k
  resolve_of_get : ∀ {r s k}, get r s = some k → resolve r k = s

namespace Interner

variable {Rodeo Spur : Type} [Interner Rodeo Spur]

@[simp] theorem get_getOrIntern_self (r : Rodeo) (s : String) :
    get (getOrIntern r s).2 s = some (getOrIntern r s).1 := by
  rw [get_getOrIntern, if_pos rfl]

/-- **A key stays valid.** -/
theorem get_getOrIntern_of_get {r : Rodeo} {s t : String} {k : Spur} (h : get r t = some k) :
    get (getOrIntern r s).2 t = some k := by
  rw [get_getOrIntern]
  split
  · next hts => rw [getOrIntern_of_get (hts ▸ h)]
  · exact h

/-- Two strings have different keys. -/
theorem eq_of_get_eq {r : Rodeo} {s t : String} {k : Spur} (hs : get r s = some k)
    (ht : get r t = some k) : s = t := by
  rw [← resolve_of_get hs, resolve_of_get ht]

/-- A key that the interner gave out. -/
def Valid (r : Rodeo) (k : Spur) : Prop := ∃ s, get r s = some k

theorem Valid.get_resolve {r : Rodeo} {k : Spur} (h : Valid r k) :
    get r (resolve r k) = some k := by
  obtain ⟨s, hs⟩ := h
  rwa [resolve_of_get hs]

/-- `r'` still knows every string of `r` by the same key. -/
def Extends (r r' : Rodeo) : Prop := ∀ s k, get r s = some k → get r' s = some k

theorem Extends.refl (r : Rodeo) : Extends r r := fun _ _ h => h

theorem Extends.trans {r₁ r₂ r₃ : Rodeo} (h₁ : Extends r₁ r₂) (h₂ : Extends r₂ r₃) :
    Extends r₁ r₃ := fun s k h => h₂ s k (h₁ s k h)

theorem extends_getOrIntern (r : Rodeo) (s : String) : Extends r (getOrIntern r s).2 :=
  fun _ _ h => get_getOrIntern_of_get h

theorem Valid.mono {r r' : Rodeo} {k : Spur} (h : Valid r k) (hr : Extends r r') : Valid r' k :=
  h.imp fun s hs => hr s k hs

/-- A valid key keeps its string in every extension. -/
theorem Valid.resolve_eq {r r' : Rodeo} {k : Spur} (h : Valid r k) (hr : Extends r r') :
    resolve r' k = resolve r k :=
  resolve_of_get (hr _ _ h.get_resolve)

theorem valid_getOrIntern (r : Rodeo) (s : String) :
    Valid (getOrIntern r s).2 (getOrIntern r s).1 :=
  ⟨s, get_getOrIntern_self r s⟩

theorem resolve_getOrIntern_self (r : Rodeo) (s : String) :
    resolve (getOrIntern r s).2 (getOrIntern r s).1 = s :=
  resolve_of_get (get_getOrIntern_self r s)

end Interner

/-! ### Interning one after another -/

section Each

variable {Rodeo Spur α β : Type} [Interner Rodeo Spur]

/-- Intern an optional string. -/
def internOption (r : Rodeo) : Option String → Option Spur × Rodeo
  | none => (none, r)
  | some s => (some (Interner.getOrIntern r s).1, (Interner.getOrIntern r s).2)

omit [Interner Rodeo Spur] in
/-- Intern what is in the elements of a list, from the first to the last. -/
def internEach (f : Rodeo → α → β × Rodeo) (r : Rodeo) : List α → List β × Rodeo
  | [] => ([], r)
  | a :: l =>
    let b := f r a
    let rest := internEach f b.2 l
    (b.1 :: rest.1, rest.2)

theorem extends_internOption (r : Rodeo) (s : Option String) :
    Interner.Extends r (internOption r s).2 := by
  cases s with
  | none => exact Interner.Extends.refl r
  | some s => exact Interner.extends_getOrIntern r s

theorem extends_internEach {f : Rodeo → α → β × Rodeo}
    (hf : ∀ r a, Interner.Extends r (f r a).2) (r : Rodeo) (l : List α) :
    Interner.Extends r (internEach f r l).2 := by
  induction l generalizing r with
  | nil => exact Interner.Extends.refl r
  | cons a l ih => exact (hf r a).trans (ih _)

omit [Interner Rodeo Spur] in
/-- What interning leaves alone, it leaves alone throughout the list. -/
theorem map_internEach {γ : Type} {f : Rodeo → α → β × Rodeo} {g : β → γ} {h : α → γ}
    (hf : ∀ r a, g (f r a).1 = h a) (r : Rodeo) (l : List α) :
    (internEach f r l).1.map g = l.map h := by
  induction l generalizing r with
  | nil => rfl
  | cons a l ih => exact congr_arg₂ List.cons (hf r a) (ih _)

/-- Each result is of an element, interned on the way. -/
theorem mem_internEach {f : Rodeo → α → β × Rodeo} (hf : ∀ r a, Interner.Extends r (f r a).2)
    {r : Rodeo} {l : List α} {b : β} (hb : b ∈ (internEach f r l).1) :
    ∃ a ∈ l, ∃ r', Interner.Extends r r' ∧ b = (f r' a).1 ∧
      Interner.Extends (f r' a).2 (internEach f r l).2 := by
  induction l generalizing r with
  | nil => exact absurd hb List.not_mem_nil
  | cons a l ih =>
    rcases List.mem_cons.mp hb with rfl | hb
    · exact ⟨a, List.mem_cons_self, r, Interner.Extends.refl r, rfl, extends_internEach hf _ l⟩
    · obtain ⟨a', ha', r', hr', rfl, hext⟩ := ih hb
      exact ⟨a', List.mem_cons_of_mem _ ha', r', (hf r a).trans hr', rfl, hext⟩

/-- What relates each element to its result relates the two lists, if it lasts. -/
theorem forall₂_internEach {f : Rodeo → α → β × Rodeo} {R : Rodeo → α → β → Prop}
    (hf : ∀ r a, Interner.Extends r (f r a).2) (hR : ∀ r a, R (f r a).2 a (f r a).1)
    (hmono : ∀ {r r' a b}, R r a b → Interner.Extends r r' → R r' a b) (r : Rodeo) (l : List α) :
    List.Forall₂ (R (internEach f r l).2) l (internEach f r l).1 := by
  induction l generalizing r with
  | nil => exact .nil
  | cons a l ih => exact .cons (hmono (hR r a) (extends_internEach hf _ l)) (ih _)

end Each

/-! ### An interner to evaluate with -/

/-- The strings interned so far; a key is a position. -/
structure VecRodeo where
  strings : List String
  deriving DecidableEq

namespace VecRodeo

/-- The position of a string, or the next one. -/
def getOrIntern (r : VecRodeo) (s : String) : ℕ × VecRodeo :=
  match r.strings.idxOf? s with
  | some k => (k, r)
  | none => (r.strings.length, ⟨r.strings ++ [s]⟩)

theorem idxOf?_concat (l : List String) (s t : String) :
    (l ++ [s]).idxOf? t =
      (l.idxOf? t).or (if t = s then some l.length else none) := by
  induction l with
  | nil =>
    rw [List.nil_append, List.idxOf?_cons]
    by_cases hts : t = s
    · simp [hts]
    · simp [hts, Ne.symm hts]
  | cons a l ih =>
    rw [List.cons_append, List.idxOf?_cons, List.idxOf?_cons, ih]
    split
    · rfl
    · cases l.idxOf? t <;> by_cases hts : t = s <;> simp [hts]

theorem getElem?_of_idxOf? {l : List String} {s : String} {k : ℕ} (h : l.idxOf? s = some k) :
    l[k]? = some s := by
  induction l generalizing k with
  | nil => simp at h
  | cons a l ih =>
    rw [List.idxOf?_cons] at h
    split at h
    · next has =>
      obtain rfl := Option.some.inj h
      simpa using has
    · obtain ⟨j, hj, rfl⟩ := Option.map_eq_some_iff.mp h
      simpa using ih hj

instance : Interner VecRodeo ℕ where
  empty := ⟨[]⟩
  get r s := r.strings.idxOf? s
  getOrIntern := getOrIntern
  resolve r k := r.strings.getD k ""
  get_empty s := rfl
  get_getOrIntern r s t := by
    cases hs : r.strings.idxOf? s with
    | some k =>
      simp only [getOrIntern, hs]
      split
      · next hts => rw [hts, hs]
      · rfl
    | none =>
      simp only [getOrIntern, hs, idxOf?_concat]
      split
      · next hts => simp [hts, hs]
      · simp
  getOrIntern_of_get {r s k} h := by simp [getOrIntern, h]
  resolve_of_get {r s k} h := by
    rw [List.getD_eq_getElem?_getD, getElem?_of_idxOf? h, Option.getD_some]

end VecRodeo

end Aniani
