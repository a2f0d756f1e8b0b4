import Aniani.ForMathlib.Finmap
import Aniani.ForMathlib.StackSearch
import Mathlib.Data.List.FinRange
import Mathlib.Data.List.Sort
import Mathlib.Data.Rat.Defs

/-!
# The trace view

The page reads the payload of a trace into a list of spans and links them into a tree. A parent id
stands for the first span with that id. What no root leads to, since its parents form a cycle, becomes
a root of its own; after that the siblings are sorted and the tree is walked row by row.

The loops keep a stack, and a set of the spans that they have been at. Each takes as many turns as it
is given, and nothing is returned when these are not enough.

A span is known by its place in the payload, its `uid`. The colours of the services are left out, and
so is what is only shown in the details of a span.

## Main definitions

* `Payload`, `viewSpans` — the payload and its spans
* `linkNodes`, `recover`, `sortTree` — the tree
* `buildTraceModel`, `rows`
-/

namespace Aniani

namespace Ui

/-- What the page does with a number. -/
class JsNumber (N : Type) where
  /-- A literal, and `Number` of a `BigInt`. -/
  ofRat : ℚ → N
  add : N → N → N
  sub : N → N → N
  mul : N → N → N
  div : N → N → N
  /-- `Math.min`. -/
  min : N → N → N
  /-- `Math.max`. -/
  max : N → N → N
  /-- `<`. -/
  lt : N → N → Bool
  isFinite : N → Bool
  /-- Neither zero nor `NaN`. -/
  truthy : N → Bool

/-- Numbers that are not rounded, to evaluate with. -/
instance : JsNumber ℚ where
  ofRat q := q
  add a b := a + b
  sub a b := a - b
  mul a b := a * b
  div a b := a / b
  min a b := if a ≤ b then a else b
  max a b := if a ≤ b then b else a
  lt a b := decide (a < b)
  isFinite _ := true
  truthy a := decide (a ≠ 0)

/-! ### The payload -/

/-- A span of the payload, with the fields that are there. -/
structure PayloadSpan where
  spanId : Option String
  parentSpanId : Option String
  name : Option String
  startTimeUnixNano : Option String
  endTimeUnixNano : Option String
  statusCode : Option ℤ

/-- The spans of a resource, which has attributes with string values. -/
structure Batch where
  resource : List (String × Option String)
  scopeSpans : List (List PayloadSpan)

/-- The payload of a trace. -/
abbrev Payload := List Batch

/-- `a || b` on strings. -/
def orElse (a : Option String) (b : String) : String :=
  match a with
  | some s => if s = "" then b else s
  | none => b

/-- `serviceFromResource`. -/
def serviceFromResource (resource : List (String × Option String)) : String :=
  orElse ((resource.find? fun x => x.1 == "service.name").bind Prod.snd) "unknown"

/-- `toBigNs`, by what `BigInt` makes of a text, if it does not throw. -/
def toBigNs (bigInt : String → Option ℤ) (v : Option String) : ℤ :=
  match v with
  | some s => if s = "" then 0 else (bigInt s).getD 0
  | none => 0

/-- A span as the page keeps it. -/
structure ViewSpan where
  spanId : String
  parentSpanId : String
  name : String
  service : String
  startBig : ℤ
  endBig : ℤ
  statusCode : ℤ
  deriving DecidableEq

/-- `normalizeSpan`. -/
def normalizeSpan (bigInt : String → Option ℤ) (sp : PayloadSpan) (service : String) : ViewSpan where
  spanId := orElse sp.spanId ""
  parentSpanId := orElse sp.parentSpanId ""
  name := orElse sp.name "(unnamed)"
  service := service
  startBig := toBigNs bigInt sp.startTimeUnixNano
  endBig := toBigNs bigInt sp.endTimeUnixNano
  statusCode := sp.statusCode.getD 0

/-- The spans of the payload. -/
def viewSpans (bigInt : String → Option ℤ) (detail : Payload) : List ViewSpan :=
  detail.flatMap fun b => b.scopeSpans.flatMap fun ss =>
    ss.map fun sp => normalizeSpan bigInt sp (serviceFromResource b.resource)

/-! ### The tree -/

/-- The nodes under each node, and the roots. -/
structure Tree (n : ℕ) where
  children : Fin n → List (Fin n)
  roots : List (Fin n)

/-- `roots.push`. -/
def Tree.addRoot {n : ℕ} (tree : Tree n) (i : Fin n) : Tree n :=
  { tree with roots := tree.roots ++ [i] }

/-- `parent.children.push`. -/
def Tree.addChild {n : ℕ} (tree : Tree n) (p i : Fin n) : Tree n :=
  { tree with children := Function.update tree.children p (tree.children p ++ [i]) }

/-- The properties that every object has. None of them has an array of children. -/
def inheritedNames : List String :=
  ["constructor", "__defineGetter__", "__defineSetter__", "hasOwnProperty", "__lookupGetter__",
    "__lookupSetter__", "isPrototypeOf", "propertyIsEnumerable", "toString", "valueOf", "__proto__",
    "toLocaleString"]

section Tree

variable (spans : List ViewSpan)

/-- One turn of the loop that fills `byId`: the first span with an id is recorded under it. -/
def recordId (byId : Finmap fun _ : String => Fin spans.length) (i : Fin spans.length) :
    Finmap fun _ : String => Fin spans.length :=
  if spans[i].spanId ∈ byId ∨ spans[i].spanId ∈ inheritedNames then byId
  else byId.insert spans[i].spanId i

/-- `byId`, without the properties that every object has. -/
def byId : Finmap fun _ : String => Fin spans.length :=
  (List.finRange spans.length).foldl (recordId spans) ∅

/-- One turn of the loop that links the nodes: no parent, one that is absent, and the span itself
make a root. Nothing is returned where the turn throws. -/
def linkNode (byId : Finmap fun _ : String => Fin spans.length) (tree : Tree spans.length)
    (i : Fin spans.length) : Option (Tree spans.length) :=
  if spans[i].parentSpanId = "" then some (tree.addRoot i)
  else match byId.lookup spans[i].parentSpanId with
    | some p => some (if p = i then tree.addRoot i else tree.addChild p i)
    | none => if spans[i].parentSpanId ∈ inheritedNames then none else some (tree.addRoot i)

/-- The loop that links the nodes. -/
def linkNodes : Option (Tree spans.length) :=
  (List.finRange spans.length).foldlM (linkNode spans (byId spans)) ⟨fun _ => [], []⟩

end Tree

section Repair

variable {n : ℕ}

/-- The loop over `rstack`: the nodes that the roots lead to. -/
def reachedNodes (turns : ℕ) (tree : Tree n) : Option (Finset (Fin n)) :=
  (Loop.run (StackSearch.body id fun i c => (c, (tree.children i).reverse)) turns
    ⟨tree.roots.reverse, ∅, ()⟩).map Prod.fst

/-- What is trapped in a cycle of parents becomes a root. -/
def Tree.recover (tree : Tree n) (reached : Finset (Fin n)) : Tree n :=
  { tree with roots := tree.roots ++ (List.finRange n).filter fun i => i ∉ reached }

/-- The order of siblings: by their start, then by their name. -/
def compareSiblings (localeCompare : String → String → ℤ) (a b : ViewSpan) : ℤ :=
  if a.startBig < b.startBig then -1
  else if b.startBig < a.startBig then 1
  else localeCompare a.name b.name

/-- `sortSiblings`. -/
def sortSiblings (localeCompare : String → String → ℤ) (span : Fin n → ViewSpan)
    (arr : List (Fin n)) : List (Fin n) :=
  arr.insertionSort fun a b => compareSiblings localeCompare (span a) (span b) ≤ 0

/-- A turn of the loop over `sstack`: the children of a node are sorted where they are. -/
def sortNode (sort : List (Fin n) → List (Fin n)) (i : Fin n) (children : Fin n → List (Fin n)) :
    (Fin n → List (Fin n)) × List (Fin n) :=
  (Function.update children i (sort (children i)), (sort (children i)).reverse)

/-- The loop over `sstack`, after the roots were sorted. -/
def sortTree (sort : List (Fin n) → List (Fin n)) (turns : ℕ) (tree : Tree n) : Option (Tree n) :=
  (Loop.run (StackSearch.body id (sortNode sort)) turns
    ⟨(sort tree.roots).reverse, ∅, tree.children⟩).map fun r => ⟨r.2, sort tree.roots⟩

end Repair

/-! ### The model -/

section Model

variable {N : Type} [JsNumber N]

open JsNumber

/-- A span of the model. -/
structure ModelSpan (N : Type) extends ViewSpan where
  uid : ℕ
  offsetNs : N
  durationNs : N
  hasChildren : Bool

/-- What `buildTraceModel` returns. -/
structure TraceModel (N : Type) where
  count : ℕ
  spans : Fin count → ModelSpan N
  tree : Tree count
  totalNs : N
  errorCount : ℕ

/-- The first start and the last end, of the spans with a start as long as there are any. -/
def timelineBounds (spans : List ViewSpan) : ℤ × ℤ :=
  let timed := spans.filter fun s => 0 < s.startBig
  let base := if timed.length ≠ 0 then timed else spans
  let first := (base.head?.map ViewSpan.startBig).getD 0
  let last := (base.head?.map ViewSpan.endBig).getD 0
  let minStart := base.foldl (fun m s => if s.startBig < m then s.startBig else m) first
  let maxEnd := base.foldl (fun m s => if m < s.endBig then s.endBig else m) last
  (minStart, if maxEnd < minStart then minStart else maxEnd)

/-- `clamp`. -/
def clamp (totalNs n : N) : N := min totalNs (max (ofRat 0) n)

/-- The model of some spans, with the tree as it was linked and as it was sorted. -/
def modelOf (spans : List ViewSpan) (linked tree : Tree spans.length) : TraceModel N :=
  let bounds := timelineBounds spans
  let totalNs := ofRat (bounds.2 - bounds.1)
  { count := spans.length
    spans := fun i => { spans.get i with
      uid := i
      offsetNs := clamp totalNs (ofRat (spans[i].startBig - bounds.1))
      durationNs := max (ofRat 0) (ofRat (spans[i].endBig - spans[i].startBig))
      hasChildren := decide (0 < (linked.children i).length) }
    tree := tree
    totalNs := totalNs
    errorCount := (spans.filter fun s => s.statusCode == 2).length }

/-- `buildTraceModel`: nothing where a turn throws or the turns are not enough, and no model of a
payload without spans. -/
def buildTraceModel (bigInt : String → Option ℤ) (localeCompare : String → String → ℤ) (turns : ℕ)
    (detail : Payload) : Option (Option (TraceModel N)) :=
  let spans := viewSpans bigInt detail
  if spans.isEmpty then some none
  else do
    let linked ← linkNodes spans
    let reached ← reachedNodes turns linked
    let tree ← sortTree (sortSiblings localeCompare spans.get) turns (linked.recover reached)
    return some (modelOf spans linked tree)

/-! ### The rows -/

/-- A row of the waterfall. -/
structure Row (N : Type) where
  span : ModelSpan N
  depth : ℕ
  hasChildren : Bool
  leftPct : N
  widthPct : N

/-- The row of a node. -/
def rowOf (m : TraceModel N) (i : Fin m.count) (depth : ℕ) : Row N :=
  let s := m.spans i
  let total := if truthy m.totalNs then m.totalNs else ofRat 1
  let leftPct := min (ofRat 100) (max (ofRat 0) (mul (div s.offsetNs total) (ofRat 100)))
  let widthPct := mul (div s.durationNs total) (ofRat 100)
  let widthPct := if !isFinite widthPct || lt widthPct (ofRat 0) then ofRat 0 else widthPct
  let widthPct := min (ofRat 100) (max widthPct (ofRat (2 / 5)))
  { span := s
    depth := depth
    hasChildren := decide (0 < (m.tree.children i).length)
    leftPct := if lt (ofRat 100) (add leftPct widthPct) then max (ofRat 0) (sub (ofRat 100) widthPct)
      else leftPct
    widthPct := widthPct }

/-- A turn of the loop of `rows`. -/
def visitRow (m : TraceModel N) (collapsed : ℕ → Bool) (item : Fin m.count × ℕ) (out : List (Row N)) :
    List (Row N) × List (Fin m.count × ℕ) :=
  (out ++ [rowOf m item.1 item.2],
    if !collapsed (m.spans item.1).uid && decide (0 < (m.tree.children item.1).length) then
      (m.tree.children item.1).map fun child => (child, item.2 + 1)
    else [])

/-- `rows`. -/
def rows (turns : ℕ) (collapsed : ℕ → Bool) : Option (TraceModel N) → Option (List (Row N))
  | none => some []
  | some m => (Loop.run (StackSearch.body Prod.fst (visitRow m collapsed)) turns
      ⟨m.tree.roots.map fun root => (root, 0), ∅, []⟩).map Prod.snd

end Model

end Ui

end Aniani
