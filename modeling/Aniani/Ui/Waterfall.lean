import Aniani.Ui.TraceModel
import Mathlib.Algebra.BigOperators.Group.Finset.Piecewise
import Mathlib.Algebra.Order.BigOperators.Group.Finset
import Mathlib.Tactic.Ring

/-!
# The rows of the waterfall

The loops of the trace view end on every trace, and each span has one row, as long as no row is
collapsed. A span whose parents lead to a root has a row since the walk from the roots gets there, and
any other one since it was made a root.

The ids have to be no names that every object has; those of the server are hexadecimal.

## Main definitions

* `HexIds` — payloads with such ids
* `Tree.size` — the links of a tree
* `Tree.Covers` — the roots lead to every node

## Main results

* `exists_linkNodes` — every node is linked once
* `exists_reachedNodes`, `exists_sortTree`, `exists_rows` — the loops end
* `rows_perm` — one row for each span
-/

namespace Aniani

namespace Ui

/-! ### Ids -/

/-- Nothing but hexadecimal digits. -/
def IsHex (s : String) : Prop := ∀ c ∈ s.toList, c ∈ "0123456789abcdefABCDEF".toList

instance (s : String) : Decidable (IsHex s) := List.decidableBAll _ s.toList

/-- The ids of the spans and of their parents are hexadecimal, empty or absent. -/
def HexIds (detail : Payload) : Prop :=
  ∀ b ∈ detail, ∀ ss ∈ b.scopeSpans, ∀ sp ∈ ss,
    IsHex (sp.spanId.getD "") ∧ IsHex (sp.parentSpanId.getD "")

theorem not_isHex_of_mem_inheritedNames : ∀ name ∈ inheritedNames, ¬ IsHex name := by decide

theorem orElse_empty (a : Option String) : orElse a "" = a.getD "" := by
  cases a with
  | none => rfl
  | some s =>
    rw [orElse]
    split
    · next hs => rw [hs, Option.getD_some]
    · rfl

theorem HexIds.isHex_parentSpanId {detail : Payload} (h : HexIds detail)
    (bigInt : String → Option ℤ) {span : ViewSpan} (hspan : span ∈ viewSpans bigInt detail) :
    IsHex span.parentSpanId := by
  obtain ⟨b, hb, hspan⟩ := List.mem_flatMap.mp hspan
  obtain ⟨ss, hss, hspan⟩ := List.mem_flatMap.mp hspan
  obtain ⟨sp, hsp, rfl⟩ := List.mem_map.mp hspan
  show IsHex (orElse sp.parentSpanId "")
  rw [orElse_empty]
  exact (h b hb ss hss sp hsp).2

/-! ### Linking -/

section Tree

variable {n : ℕ}

/-- The links of a tree: one for each root and one for each child. -/
def Tree.size (tree : Tree n) : ℕ := tree.roots.length + ∑ k, (tree.children k).length

@[simp] theorem Tree.size_addRoot (tree : Tree n) (i : Fin n) :
    (tree.addRoot i).size = tree.size + 1 := by
  rw [Tree.size, Tree.size, Tree.addRoot, List.length_append, List.length_singleton]
  ring

@[simp] theorem Tree.size_addChild (tree : Tree n) (p i : Fin n) :
    (tree.addChild p i).size = tree.size + 1 := by
  have hchildren : ∀ k, ((tree.addChild p i).children k).length =
      (tree.children k).length + if k = p then 1 else 0 := by
    intro k
    by_cases hk : k = p
    · subst hk
      simp [Tree.addChild]
    · simp [Tree.addChild, hk]
  have hsum : ∑ k, ((tree.addChild p i).children k).length =
      (∑ k, (tree.children k).length) + 1 := by
    simp only [hchildren, Finset.sum_add_distrib, Finset.sum_ite_eq', Finset.mem_univ, if_true]
  rw [Tree.size, hsum, Tree.size, Tree.addChild]
  ring

/-- A turn of the linking adds one link. -/
theorem exists_linkNode {spans : List ViewSpan} (hhex : ∀ span ∈ spans, IsHex span.parentSpanId)
    (byId : Finmap fun _ : String => Fin spans.length) (tree : Tree spans.length)
    (i : Fin spans.length) :
    ∃ tree', linkNode spans byId tree i = some tree' ∧ tree'.size = tree.size + 1 := by
  rw [linkNode]
  split
  · exact ⟨_, rfl, tree.size_addRoot i⟩
  · split
    · refine ⟨_, rfl, ?_⟩
      split
      · exact tree.size_addRoot i
      · exact tree.size_addChild _ i
    · have hname : spans[i].parentSpanId ∉ inheritedNames := fun hname =>
        not_isHex_of_mem_inheritedNames _ hname (hhex spans[i] (List.getElem_mem i.isLt))
      rw [if_neg hname]
      exact ⟨_, rfl, tree.size_addRoot i⟩

/-- **Every node is linked once.** -/
theorem exists_linkNodes {spans : List ViewSpan} (hhex : ∀ span ∈ spans, IsHex span.parentSpanId) :
    ∃ tree, linkNodes spans = some tree ∧ tree.size = spans.length := by
  have hrun : ∀ (l : List (Fin spans.length)) (tree : Tree spans.length),
      ∃ tree', l.foldlM (linkNode spans (byId spans)) tree = some tree' ∧
        tree'.size = tree.size + l.length := by
    intro l
    induction l with
    | nil => exact fun tree => ⟨tree, rfl, rfl⟩
    | cons i l ih =>
      intro tree
      obtain ⟨tree₁, hstep, hsize₁⟩ := exists_linkNode hhex (byId spans) tree i
      obtain ⟨tree₂, hrest, hsize₂⟩ := ih tree₁
      refine ⟨tree₂, ?_, ?_⟩
      · rw [List.foldlM_cons, hstep]
        exact hrest
      · rw [hsize₂, hsize₁, List.length_cons]
        ring
  obtain ⟨tree, htree, hsize⟩ := hrun (List.finRange spans.length) ⟨fun _ => [], []⟩
  exact ⟨tree, htree, by simpa [Tree.size] using hsize⟩

/-! ### The repair -/

open StackSearch in
/-- The roots lead to every node. -/
def Tree.Covers (tree : Tree n) : Prop := ∀ i, InReach tree.children id tree.roots i

open StackSearch in
/-- **The loop over `rstack` ends**, and has been at what the roots lead to. -/
theorem exists_reachedNodes (tree : Tree n) {turns : ℕ} (hturns : tree.size < turns) :
    ∃ reached, reachedNodes turns tree = some reached ∧
      ∀ i, i ∈ reached ↔ InReach tree.children id tree.roots i := by
  have hspec : ∃ r, Loop.run (body id fun i c => (c, (tree.children i).reverse)) turns
      ⟨tree.roots.reverse, ∅, ()⟩ = some r ∧ True ∧
        ∀ i, i ∈ r.1 ↔ InReach tree.children id tree.roots.reverse i := by
    refine run_spec (fun _ _ => True) (fun i _ _ _ _ => ⟨trivial, ?_⟩) trivial ?_
    · rw [List.map_id]
      exact List.reverse_perm _
    · rwa [List.length_reverse]
  obtain ⟨r, hrun, -, hreached⟩ := hspec
  refine ⟨r.1, by rw [reachedNodes, hrun]; rfl, fun i => (hreached i).trans ?_⟩
  exact exists_congr fun j => and_congr_left' List.mem_reverse

/-- With what was not reached among the roots, they lead to every node. -/
theorem Tree.covers_recover {tree : Tree n} {reached : Finset (Fin n)}
    (h : ∀ i, i ∈ reached → StackSearch.InReach tree.children id tree.roots i) :
    (tree.recover reached).Covers := by
  intro i
  by_cases hi : i ∈ reached
  · obtain ⟨root, hroot, hpath⟩ := h i hi
    exact ⟨root, List.mem_append_left _ hroot, hpath⟩
  · have hroot : i ∈ (List.finRange n).filter fun i => i ∉ reached := by simpa using hi
    exact ⟨i, List.mem_append_right _ hroot, .refl⟩

theorem Tree.size_recover_le (tree : Tree n) (reached : Finset (Fin n)) :
    (tree.recover reached).size ≤ tree.size + n := by
  have hnew : ((List.finRange n).filter fun i => i ∉ reached).length ≤ n :=
    (List.length_filter_le _ _).trans (List.length_finRange).le
  simp only [Tree.size, Tree.recover, List.length_append]
  omega

/-! ### Sorting -/

/-- The same links, in any order. -/
structure Tree.Reorders (tree tree' : Tree n) : Prop where
  roots : tree'.roots.Perm tree.roots
  children : ∀ k, (tree'.children k).Perm (tree.children k)

theorem Tree.Reorders.size_eq {tree tree' : Tree n} (h : tree.Reorders tree') :
    tree'.size = tree.size := by
  simp only [Tree.size, h.roots.length_eq, fun k => (h.children k).length_eq]

theorem Tree.Reorders.covers {tree tree' : Tree n} (h : tree.Reorders tree') (hcovers : tree.Covers) :
    tree'.Covers := by
  intro i
  obtain ⟨root, hroot, hpath⟩ := hcovers i
  have hleads : ∀ a b, StackSearch.Leads tree.children a b → StackSearch.Leads tree'.children a b :=
    fun a b hab => (h.children a).mem_iff.mpr hab
  exact ⟨root, h.roots.mem_iff.mpr hroot, Relation.ReflTransGen.mono hleads _ _ hpath⟩

open StackSearch in
/-- **The loop over `sstack` ends**, and only reorders siblings. -/
theorem exists_sortTree {sort : List (Fin n) → List (Fin n)} (hsort : ∀ arr, (sort arr).Perm arr)
    (tree : Tree n) {turns : ℕ} (hturns : tree.size < turns) :
    ∃ tree', sortTree sort turns tree = some tree' ∧ tree.Reorders tree' := by
  let Reordered : Finset (Fin n) → (Fin n → List (Fin n)) → Prop := fun _ children =>
    ∀ k, (children k).Perm (tree.children k)
  have hspec : ∃ r, Loop.run (body id (sortNode sort)) turns
      ⟨(sort tree.roots).reverse, ∅, tree.children⟩ = some r ∧ Reordered r.1 r.2 ∧
        ∀ i, i ∈ r.1 ↔ InReach tree.children id (sort tree.roots).reverse i := by
    refine run_spec Reordered (fun i _ children h _ => ?_) (fun k => List.Perm.refl _) ?_
    · have hnode : (sort (children i)).Perm (tree.children i) := (hsort _).trans (h i)
      refine ⟨fun k => ?_, ?_⟩
      · by_cases hk : k = i
        · subst hk
          simpa [sortNode] using hnode
        · simpa [sortNode, hk] using h k
      · rw [List.map_id]
        exact (List.reverse_perm _).trans hnode
    · rw [List.length_reverse, (hsort tree.roots).length_eq]
      exact hturns
  obtain ⟨r, hrun, hchildren, -⟩ := hspec
  exact ⟨_, by rw [sortTree, hrun]; rfl, hsort tree.roots, hchildren⟩

theorem sortSiblings_perm (localeCompare : String → String → ℤ) (span : Fin n → ViewSpan)
    (arr : List (Fin n)) : (sortSiblings localeCompare span arr).Perm arr :=
  List.perm_insertionSort _ arr

end Tree

/-! ### The rows -/

section Rows

variable {N : Type} [JsNumber N]

/-- With nothing collapsed, all children of a node are pushed. -/
theorem map_fst_visitRow (m : TraceModel N) (item : Fin m.count × ℕ) (out : List (Row N)) :
    (visitRow m (fun _ => false) item out).2.map Prod.fst = m.tree.children item.1 := by
  rw [visitRow]
  by_cases hchildren : 0 < (m.tree.children item.1).length
  · simp [hchildren, Function.comp_def]
  · have hnil : m.tree.children item.1 = [] := List.eq_nil_of_length_eq_zero (by omega)
    simp [hnil]

open StackSearch in
/-- **The loop of `rows` ends**, with one row for each span. -/
theorem exists_rows (m : TraceModel N) (hcovers : m.tree.Covers) {turns : ℕ}
    (hturns : m.tree.size < turns) :
    ∃ out, rows turns (fun _ => false) (some m) = some out ∧
      (out.map Row.span).Perm ((List.finRange m.count).map m.spans) := by
  -- What was put out are the rows of the nodes that were seen, each at some depth.
  let Shown : Finset (Fin m.count) → List (Row N) → Prop := fun seen out =>
    ∃ nodes : List (Fin m.count), out.map Row.span = nodes.map m.spans ∧ nodes.Nodup ∧
      ∀ i, i ∈ nodes ↔ i ∈ seen
  have hspec : ∃ r, Loop.run (body Prod.fst (visitRow m fun _ => false)) turns
      ⟨m.tree.roots.map fun root => (root, 0), ∅, []⟩ = some r ∧ Shown r.1 r.2 ∧
        ∀ i, i ∈ r.1 ↔
          InReach m.tree.children Prod.fst (m.tree.roots.map fun root => (root, 0)) i := by
    refine run_spec Shown (fun item seen out h hseen => ?_) ⟨[], rfl, List.nodup_nil, by simp⟩ ?_
    · obtain ⟨nodes, hout, hnodup, hnodes⟩ := h
      have hnew : item.1 ∉ nodes := fun hmem => hseen ((hnodes item.1).mp hmem)
      refine ⟨⟨nodes ++ [item.1], ?_, ?_, fun i => ?_⟩, ?_⟩
      · simp [visitRow, rowOf, hout]
      · exact List.nodup_append_comm.mp (List.nodup_cons.mpr ⟨hnew, hnodup⟩)
      · rw [List.mem_append, hnodes, List.mem_singleton, Finset.mem_insert, or_comm]
      · rw [map_fst_visitRow]
    · rwa [List.length_map]
  obtain ⟨r, hrun, ⟨nodes, hout, hnodup, hnodes⟩, hreached⟩ := hspec
  have hall : ∀ i, i ∈ nodes := by
    intro i
    obtain ⟨root, hroot, hpath⟩ := hcovers i
    exact (hnodes i).mpr ((hreached i).mpr ⟨(root, 0), List.mem_map_of_mem hroot, hpath⟩)
  have hperm : nodes.Perm (List.finRange m.count) :=
    (List.perm_ext_iff_of_nodup hnodup (List.nodup_finRange _)).mpr fun i =>
      iff_of_true (hall i) (List.mem_finRange i)
  exact ⟨r.2, by rw [rows, hrun]; rfl, hout ▸ hperm.map m.spans⟩

/-- The spans of a payload with their numbers, from the first to the last. -/
theorem map_finRange_eq_zipIdx (spans : List ViewSpan) :
    (List.finRange spans.length).map (fun i => (spans.get i, (i : ℕ))) = spans.zipIdx := by
  refine List.ext_getElem (by simp) fun k hk hk' => ?_
  simp

variable (N) in
/-- **The loops end on every trace**, and the waterfall has one row for each span. -/
theorem rows_perm (bigInt : String → Option ℤ) (localeCompare : String → String → ℤ)
    {detail : Payload} (h : HexIds detail) {turns : ℕ}
    (hturns : 2 * (viewSpans bigInt detail).length < turns) :
    ∃ (model : Option (TraceModel N)) (out : List (Row N)),
      buildTraceModel bigInt localeCompare turns detail = some model ∧
      rows turns (fun _ => false) model = some out ∧
      (out.map fun row => (row.span.toViewSpan, row.span.uid)).Perm
        (viewSpans bigInt detail).zipIdx := by
  by_cases hempty : viewSpans bigInt detail = []
  · refine ⟨none, [], ?_, rfl, by simp [hempty]⟩
    simp [buildTraceModel, hempty]
  · obtain ⟨linked, hlinked, hsize⟩ :=
      exists_linkNodes fun _ hspan => h.isHex_parentSpanId bigInt hspan
    obtain ⟨reached, hreached, hreach⟩ :=
      exists_reachedNodes linked (show linked.size < turns by omega)
    have hle := linked.size_recover_le reached
    obtain ⟨tree, htree, hreorders⟩ :=
      exists_sortTree (sortSiblings_perm localeCompare (viewSpans bigInt detail).get)
        (linked.recover reached) (show (linked.recover reached).size < turns by omega)
    have hcovers : tree.Covers := hreorders.covers (Tree.covers_recover fun i => (hreach i).mp)
    let m : TraceModel N := modelOf (viewSpans bigInt detail) linked tree
    have hsize' : m.tree.size < turns := by
      show tree.size < turns
      rw [hreorders.size_eq]
      omega
    obtain ⟨out, hout, hperm⟩ := exists_rows m hcovers hsize'
    refine ⟨some m, out, ?_, hout, ?_⟩
    · rw [buildTraceModel, hlinked]
      simp [hempty, hreached, htree, m]
    · have hrows := hperm.map fun span => (span.toViewSpan, span.uid)
      rw [List.map_map, List.map_map] at hrows
      exact map_finRange_eq_zipIdx (viewSpans bigInt detail) ▸ hrows

end Rows

/-- A payload with two spans that are each other's parents, and one with the id of the first. -/
def cyclePayload : Payload :=
  let span : String → String → PayloadSpan := fun spanId parentSpanId =>
    ⟨some spanId, some parentSpanId, some "work", some "5", some "7", some 0⟩
  [⟨[("service.name", some "api")], [[span "aa" "bb", span "bb" "aa", span "aa" ""]]⟩]

/-- What `BigInt` makes of decimal digits. -/
def decimalBigInt (s : String) : Option ℤ :=
  some (s.toList.foldl (fun n c => 10 * n + (c.toNat - 48)) 0)

theorem rows_perm_cyclePayload :
    HexIds cyclePayload ∧ ∃ (model : Option (TraceModel ℚ)) (out : List (Row ℚ)),
      buildTraceModel decimalBigInt (fun _ _ => 0) 7 cyclePayload = some model ∧
      rows 7 (fun _ => false) model = some out ∧
      (out.map fun row => (row.span.toViewSpan, row.span.uid)).Perm
        (viewSpans decimalBigInt cyclePayload).zipIdx := by
  have hids : HexIds cyclePayload := by
    show ∀ b ∈ cyclePayload, _
    decide
  exact ⟨hids, rows_perm ℚ _ _ hids (by decide)⟩

/-- The span without a parent comes first, and then the cycle, which is entered at its first span. -/
example : ((buildTraceModel decimalBigInt (fun _ _ => 0) 7 cyclePayload).bind
    (rows 7 fun _ => false)).map (List.map fun row : Row ℚ => row.span.uid) = some [2, 0, 1] := by
  decide

end Ui

end Aniani
