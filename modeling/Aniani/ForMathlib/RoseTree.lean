import Mathlib.Data.List.Flatten
import Mathlib.Data.List.Nodup
import Mathlib.Data.List.Perm.Basic
import Mathlib.Data.List.Range

/-!
# Trees that a graph is unfolded to

A graph is given by the successors of each vertex. It is unfolded from a vertex to a tree of bounded
depth, with a node for each walk, so that a vertex that is reached by two walks has two nodes.

## Main definitions

* `RoseTree`, `RoseTree.fold` — trees, and recursion over them
* `RoseTree.unfold` — the tree of the walks from a vertex
* `RoseTree.places`, `RoseTree.labels` — which label stands under which
* `RoseTree.level` — where the walks of one length end

## Main results

* `RoseTree.labels_unfold_perm` — the labels, level by level
* `RoseTree.nodup_labels_iff` — when no vertex has two nodes
-/

/-- A tree with a label at each node. -/
inductive RoseTree (α : Type*) where
  | node (label : α) (children : List (RoseTree α))

namespace RoseTree

variable {α β : Type*}

/-! ### Recursion -/

mutual

/-- Put a function in the place of every node. -/
def fold (f : α → List β → β) : RoseTree α → β
  | node a ts => f a (foldAll f ts)

/-- The same, for every tree of a list. -/
def foldAll (f : α → List β → β) : List (RoseTree α) → List β
  | [] => []
  | t :: ts => fold f t :: foldAll f ts

end

theorem foldAll_eq_map (f : α → List β → β) (ts : List (RoseTree α)) :
    foldAll f ts = ts.map (fold f) := by
  induction ts with
  | nil => rfl
  | cons t ts ih => rw [foldAll, ih, List.map_cons]

@[simp] theorem fold_node (f : α → List β → β) (a : α) (ts : List (RoseTree α)) :
    fold f (node a ts) = f a (ts.map (fold f)) := by
  rw [fold, foldAll_eq_map]

/-! ### Labels -/

/-- Each label of a tree, with the one it stands under. -/
def placesUnder (parent : Option α) (t : RoseTree α) : List (Option α × α) :=
  fold (fun a below p => (p, a) :: below.flatMap fun places => places (some a)) t parent

@[simp] theorem placesUnder_node (parent : Option α) (a : α) (ts : List (RoseTree α)) :
    placesUnder parent (node a ts) = (parent, a) :: ts.flatMap (placesUnder (some a)) := by
  rw [placesUnder, fold_node, List.flatMap_map]
  rfl

/-- Each label of some trees, with the one it stands under, if there is one. -/
def places (ts : List (RoseTree α)) : List (Option α × α) := ts.flatMap (placesUnder none)

/-- The labels of some trees, one for each node. -/
def labels (ts : List (RoseTree α)) : List α := (places ts).map Prod.snd

theorem map_snd_placesUnder (parent : Option α) (t : RoseTree α) :
    (placesUnder parent t).map Prod.snd = labels [t] := by
  cases t
  simp [labels, places]

theorem labels_eq_flatMap (ts : List (RoseTree α)) : labels ts = ts.flatMap fun t => labels [t] := by
  rw [labels, places, List.map_flatMap]
  exact List.flatMap_congr fun t _ => map_snd_placesUnder none t

theorem labels_node (a : α) (ts : List (RoseTree α)) : labels [node a ts] = a :: labels ts := by
  rw [labels_eq_flatMap ts, ← map_snd_placesUnder none, placesUnder_node, List.map_cons,
    List.map_flatMap]
  exact congrArg _ (List.flatMap_congr fun t _ => map_snd_placesUnder (some a) t)

/-! ### Unfolding a graph -/

section Unfold

variable (children : α → List α)

/-- The tree of the walks from a vertex that are not longer than this. -/
def unfold : ℕ → α → RoseTree α
  | 0, a => node a []
  | n + 1, a => node a ((children a).map (unfold n))

/-- Where the walks of one length end. -/
def level (roots : List α) : ℕ → List α
  | 0 => roots
  | n + 1 => (level roots n).flatMap children

variable {children}

theorem level_succ' (roots : List α) (n : ℕ) :
    level children roots (n + 1) = level children (roots.flatMap children) n := by
  induction n with
  | zero => rfl
  | succ n ih => rw [level, ih, level]

/-- A label stands under one that it succeeds, or is the vertex itself. -/
theorem eq_or_mem_of_mem_placesUnder_unfold {n : ℕ} {parent : Option α} {a : α}
    {place : Option α × α} (h : place ∈ placesUnder parent (unfold children n a)) :
    place = (parent, a) ∨ ∃ b, place.1 = some b ∧ place.2 ∈ children b := by
  induction n generalizing parent a with
  | zero => exact .inl (by simpa [unfold] using h)
  | succ n ih =>
    rw [unfold, placesUnder_node, List.flatMap_map, List.mem_cons, List.mem_flatMap] at h
    obtain h | ⟨c, hc, h⟩ := h
    · exact .inl h
    · obtain rfl | h := ih h
      · exact .inr ⟨a, rfl, hc⟩
      · exact .inr h

/-- **The labels of the trees of some vertices**, level by level. -/
theorem labels_unfold_perm (n : ℕ) (roots : List α) :
    (labels (roots.map (unfold children n))).Perm
      ((List.range (n + 1)).flatMap (level children roots)) := by
  induction n generalizing roots with
  | zero =>
    rw [labels_eq_flatMap, List.flatMap_map]
    simp [unfold, level, labels, places]
  | succ n ih =>
    have hnodes : labels (roots.map (unfold children (n + 1))) =
        roots.flatMap fun a => a :: labels ((children a).map (unfold children n)) := by
      rw [labels_eq_flatMap, List.flatMap_map]
      exact List.flatMap_congr fun a _ => labels_node a _
    have hbelow : (roots.flatMap fun a => labels ((children a).map (unfold children n))) =
        labels ((roots.flatMap children).map (unfold children n)) := by
      rw [labels_eq_flatMap, List.flatMap_map, List.flatMap_assoc]
      exact List.flatMap_congr fun a _ => by rw [labels_eq_flatMap, List.flatMap_map]
    have hlevels : (List.range (n + 2)).flatMap (level children roots) =
        roots ++ (List.range (n + 1)).flatMap (level children (roots.flatMap children)) := by
      rw [List.range_succ_eq_map, List.flatMap_cons, List.flatMap_map]
      exact congrArg _ (List.flatMap_congr fun k _ => level_succ' roots k)
    have hsplit := List.map_append_flatMap_perm roots id
      fun a => labels ((children a).map (unfold children n))
    rw [List.map_id, hbelow] at hsplit
    rw [hnodes, hlevels]
    exact hsplit.symm.trans ((ih (roots.flatMap children)).append_left roots)

/-- A vertex that is reached by a walk is a label. -/
theorem mem_labels_unfold_iff {n : ℕ} {roots : List α} {a : α} :
    a ∈ labels (roots.map (unfold children n)) ↔ ∃ k ≤ n, a ∈ level children roots k := by
  rw [(labels_unfold_perm n roots).mem_iff, List.mem_flatMap]
  simp only [List.mem_range, Nat.lt_succ_iff]

/-! ### Vertices with one node -/

section Nodup

variable {roots : List α} {n : ℕ}

/-- No two vertices that are reached by walks shorter than this have a successor in common. -/
def Apart (children : α → List α) (roots : List α) (n : ℕ) : Prop :=
  ∀ a b, (∃ j < n, a ∈ level children roots j) → (∃ k < n, b ∈ level children roots k) →
    ∀ c, c ∈ children a → c ∈ children b → a = b

/-- The walks to a vertex have the same length. -/
theorem Apart.level_unique (h : Apart children roots n)
    (hroots : ∀ a, ∀ c ∈ children a, c ∉ roots) {j k : ℕ} {c : α} (hj : j ≤ n) (hk : k ≤ n)
    (hcj : c ∈ level children roots j) (hck : c ∈ level children roots k) : j = k := by
  -- From the end of the walks, the last step of both comes from the same vertex.
  induction j generalizing k c with
  | zero =>
    cases k with
    | zero => rfl
    | succ k =>
      obtain ⟨b, -, hc⟩ := List.mem_flatMap.mp hck
      exact absurd hcj (hroots b c hc)
  | succ j ih =>
    obtain ⟨a, ha, hca⟩ := List.mem_flatMap.mp hcj
    cases k with
    | zero => exact absurd hck (hroots a c hca)
    | succ k =>
      obtain ⟨b, hb, hcb⟩ := List.mem_flatMap.mp hck
      obtain rfl := h a b ⟨j, by omega, ha⟩ ⟨k, by omega, hb⟩ c hca hcb
      rw [ih (by omega) (by omega) ha hb]

theorem Apart.nodup_level (h : Apart children roots n) (hnodup : roots.Nodup)
    (hchildren : ∀ a, (children a).Nodup) {k : ℕ} (hk : k ≤ n) :
    (level children roots k).Nodup := by
  induction k with
  | zero => exact hnodup
  | succ k ih =>
    refine List.nodup_flatMap.mpr ⟨fun a _ => hchildren a, ?_⟩
    refine (ih (by omega)).imp_of_mem fun {a b} ha hb hne c hca hcb => hne ?_
    exact h a b ⟨k, by omega, ha⟩ ⟨k, by omega, hb⟩ c hca hcb

/-- In a list without duplicates, what comes from an element comes from it alone. -/
theorem eq_of_nodup_flatMap {γ : Type*} {l : List γ} {f : γ → List α} (h : (l.flatMap f).Nodup)
    {x y : γ} {c : α} (hx : x ∈ l) (hy : y ∈ l) (hcx : c ∈ f x) (hcy : c ∈ f y) : x = y := by
  have hsymm : Std.Symm (Function.onFun List.Disjoint f) :=
    ⟨fun _ _ hdisjoint c hc hc' => hdisjoint hc' hc⟩
  by_contra hne
  exact (List.nodup_flatMap.mp h).2.forall hx hy hne hcx hcy

/-- **No vertex has two nodes** exactly when no two of the vertices with successors in the tree have a
successor in common. -/
theorem nodup_labels_iff (hnodup : roots.Nodup) (hchildren : ∀ a, (children a).Nodup)
    (hroots : ∀ a, ∀ c ∈ children a, c ∉ roots) :
    (labels (roots.map (unfold children n))).Nodup ↔ Apart children roots n := by
  rw [(labels_unfold_perm n roots).nodup_iff]
  constructor
  · rintro hlevels a b ⟨j, hj, ha⟩ ⟨k, hk, hb⟩ c hca hcb
    have hcj : c ∈ level children roots (j + 1) := List.mem_flatMap.mpr ⟨a, ha, hca⟩
    have hck : c ∈ level children roots (k + 1) := List.mem_flatMap.mpr ⟨b, hb, hcb⟩
    have hjn : j + 1 ∈ List.range (n + 1) := List.mem_range.mpr (by omega)
    have hkn : k + 1 ∈ List.range (n + 1) := List.mem_range.mpr (by omega)
    obtain rfl : j = k := by
      have hjk := eq_of_nodup_flatMap hlevels hjn hkn hcj hck
      omega
    exact eq_of_nodup_flatMap ((List.nodup_flatMap.mp hlevels).1 (j + 1) hjn) ha hb hca hcb
  · intro h
    rw [List.nodup_flatMap]
    refine ⟨fun k hk => h.nodup_level hnodup hchildren (by simpa [Nat.lt_succ_iff] using hk), ?_⟩
    refine List.nodup_range.imp_of_mem fun {j k} hj hk hne c hcj hck => hne ?_
    rw [List.mem_range, Nat.lt_succ_iff] at hj hk
    exact h.level_unique hroots hj hk hcj hck

end Nodup

end Unfold

end RoseTree
