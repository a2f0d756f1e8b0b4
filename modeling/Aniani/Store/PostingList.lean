import Aniani.ForMathlib.InvertedIndex
import Aniani.ForMathlib.SortedList

/-!
# Posting lists

A posting list is a strictly increasing list of ids. The order is a field of the structure, so
every operation is written with the proof that it keeps it, and no list out of order can be built.

The merge loops over two index variables are recursions on the two remaining suffixes; the binary
search is by its documented answer on a sorted slice, the position of the id or the position where
it belongs.

## Main definitions

* `PostingList`, `PostingList.fromIds`, `insert`, `remove`
* `PostingList.difference`, `union` — the two-way merges
* `PostingList.intersect` — the n-way intersection, shortest list first

## Main results

* `PostingList.mem_insert`, `mem_remove`, `mem_fromIds`, `mem_union`, `mem_difference`
* `PostingList.mem_intersect`, `sorted_intersect`
* `PostingList.operations_exact` — the operations as those on sets
-/

namespace Aniani

/-- A sorted list of ids without repetitions. -/
structure PostingList where
  ids : List ℕ
  sorted : ids.Pairwise (· < ·)
  deriving DecidableEq

namespace PostingList

instance : Membership ℕ PostingList := ⟨fun pl id => id ∈ pl.ids⟩

theorem mem_def {pl : PostingList} {id : ℕ} : id ∈ pl ↔ id ∈ pl.ids := Iff.rfl

theorem nodup (pl : PostingList) : pl.ids.Nodup := pl.sorted.imp ne_of_lt

/-- An empty posting list. -/
def new : PostingList := ⟨[], List.Pairwise.nil⟩

@[simp] theorem notMem_new (id : ℕ) : id ∉ new := by simp [mem_def, new]

/-- Whether the list is empty. -/
def isEmpty (pl : PostingList) : Bool := pl.ids.isEmpty

theorem isEmpty_iff {pl : PostingList} : pl.isEmpty = true ↔ ∀ id, id ∉ pl := by
  rw [isEmpty, List.isEmpty_iff, List.eq_nil_iff_forall_not_mem]
  rfl

/-! ### Searching -/

/-- `slice::binary_search` on a sorted slice: the position of `id`, or the position at which
inserting it keeps the order. -/
def binarySearch (ids : List ℕ) (id : ℕ) : Except ℕ ℕ :=
  let pos := ids.partitionPoint fun x => decide (x < id)
  if ids[pos]? = some id then .ok pos else .error pos

section Search

variable {ids : List ℕ} (h : ids.Pairwise (· < ·)) (id : ℕ)
include h

theorem sortedBy_ids : ids.SortedBy fun x => x := h.imp le_of_lt

theorem lt_of_mem_take {x : ℕ}
    (hx : x ∈ ids.take (ids.partitionPoint fun x => decide (x < id))) : x < id := by
  rw [List.take_partitionPoint (List.partitioned_lt (sortedBy_ids h) id)] at hx
  simpa using (List.mem_filter.mp hx).2

theorem le_of_mem_drop {x : ℕ}
    (hx : x ∈ ids.drop (ids.partitionPoint fun x => decide (x < id))) : id ≤ x := by
  rw [List.drop_partitionPoint (List.partitioned_lt (sortedBy_ids h) id)] at hx
  simpa using (List.mem_filter.mp hx).2

omit h in
theorem mem_iff_take_or_drop {x : ℕ} (n : ℕ) : x ∈ ids ↔ x ∈ ids.take n ∨ x ∈ ids.drop n := by
  rw [← List.mem_append, List.take_append_drop]

/-- The search finds every id that is in the list. -/
theorem getElem?_partitionPoint_iff :
    ids[ids.partitionPoint fun x => decide (x < id)]? = some id ↔ id ∈ ids := by
  refine ⟨List.mem_of_getElem?, fun hid => ?_⟩
  have hdrop : id ∈ ids.drop (ids.partitionPoint fun x => decide (x < id)) := by
    rcases (mem_iff_take_or_drop _).mp hid with ht | hd
    · exact absurd (lt_of_mem_take h id ht) (lt_irrefl id)
    · exact hd
  -- the head of the second part is at least `id`, and nothing after it is as small
  have hsort : (ids.drop (ids.partitionPoint fun x => decide (x < id))).Pairwise (· < ·) :=
    h.sublist (List.drop_sublist _ _)
  have hle := fun x => le_of_mem_drop h id (x := x)
  rw [← List.head?_drop]
  cases hrest : ids.drop (ids.partitionPoint fun x => decide (x < id)) with
  | nil => simp [hrest] at hdrop
  | cons y ys =>
    rw [hrest] at hdrop hsort hle
    rcases List.mem_cons.mp hdrop with rfl | hys
    · rfl
    · have hy := hle y List.mem_cons_self
      have := (List.pairwise_cons.mp hsort).1 id hys
      omega

end Search

/-- Check if an id is present. -/
def contains (pl : PostingList) (id : ℕ) : Bool :=
  match binarySearch pl.ids id with
  | .ok _ => true
  | .error _ => false

theorem contains_iff {pl : PostingList} {id : ℕ} : pl.contains id = true ↔ id ∈ pl := by
  rw [mem_def, ← getElem?_partitionPoint_iff pl.sorted id, contains, binarySearch]
  by_cases hpos : pl.ids[pl.ids.partitionPoint fun x => decide (x < id)]? = some id <;>
    simp [hpos]

/-! ### Inserting and removing -/

/-- The ids with `id` among them, in order. No change if it is already present. -/
def insertIds (ids : List ℕ) (id : ℕ) : List ℕ :=
  match binarySearch ids id with
  | .ok _ => ids
  | .error pos => ids.take pos ++ id :: ids.drop pos

/-- The ids without `id`. -/
def removeIds (ids : List ℕ) (id : ℕ) : List ℕ :=
  match binarySearch ids id with
  | .ok pos => ids.eraseIdx pos
  | .error _ => ids

theorem mem_insertIds {ids : List ℕ} {id x : ℕ} :
    x ∈ insertIds ids id ↔ x = id ∨ x ∈ ids := by
  by_cases hpos : ids[ids.partitionPoint fun x => decide (x < id)]? = some id
  · simp only [insertIds, binarySearch, hpos, if_true]
    exact ⟨Or.inr, fun hx => hx.elim (fun e => e ▸ List.mem_of_getElem? hpos) fun hx => hx⟩
  · simp only [insertIds, binarySearch, hpos, if_false, List.mem_append, List.mem_cons]
    rw [@mem_iff_take_or_drop ids x (ids.partitionPoint fun x => decide (x < id))]
    exact or_left_comm

theorem sorted_insertIds {ids : List ℕ} (h : ids.Pairwise (· < ·)) (id : ℕ) :
    (insertIds ids id).Pairwise (· < ·) := by
  by_cases hpos : ids[ids.partitionPoint fun x => decide (x < id)]? = some id
  · simpa only [insertIds, binarySearch, hpos, if_true] using h
  · simp only [insertIds, binarySearch, hpos, if_false]
    have hnot : id ∉ ids := fun hid => hpos ((getElem?_partitionPoint_iff h id).mpr hid)
    have hbefore := fun x => lt_of_mem_take h id (x := x)
    have hafter : ∀ x ∈ ids.drop (ids.partitionPoint fun x => decide (x < id)), id < x := by
      intro x hx
      refine lt_of_le_of_ne (le_of_mem_drop h id hx) ?_
      rintro rfl
      exact hnot (List.mem_of_mem_drop hx)
    refine List.pairwise_append.mpr ⟨h.sublist (List.take_sublist _ _),
      List.pairwise_cons.mpr ⟨hafter, h.sublist (List.drop_sublist _ _)⟩, fun x hx y hy => ?_⟩
    rcases List.mem_cons.mp hy with rfl | hy
    · exact hbefore x hx
    · exact (hbefore x hx).trans (hafter y hy)

theorem sorted_removeIds {ids : List ℕ} (h : ids.Pairwise (· < ·)) (id : ℕ) :
    (removeIds ids id).Pairwise (· < ·) := by
  rw [removeIds]
  split
  · exact h.sublist (List.eraseIdx_sublist _ _)
  · exact h

theorem mem_removeIds {ids : List ℕ} (h : ids.Pairwise (· < ·)) {id x : ℕ} :
    x ∈ removeIds ids id ↔ x ∈ ids ∧ x ≠ id := by
  by_cases hpos : ids[ids.partitionPoint fun x => decide (x < id)]? = some id
  · simp only [removeIds, binarySearch, hpos, if_true]
    have hsplit : ids.drop (ids.partitionPoint fun x => decide (x < id)) =
        id :: ids.drop ((ids.partitionPoint fun x => decide (x < id)) + 1) := by
      rw [List.drop_eq_getElem?_toList_append, hpos]
      rfl
    have hsort : (ids.drop (ids.partitionPoint fun x => decide (x < id))).Pairwise (· < ·) :=
      h.sublist (List.drop_sublist _ _)
    rw [hsplit] at hsort
    rw [List.eraseIdx_eq_take_drop_succ, List.mem_append,
      @mem_iff_take_or_drop ids x (ids.partitionPoint fun x => decide (x < id)), hsplit,
      List.mem_cons]
    constructor
    · rintro (hx | hx)
      · exact ⟨Or.inl hx, ne_of_lt (lt_of_mem_take h id hx)⟩
      · exact ⟨Or.inr (Or.inr hx), ne_of_gt ((List.pairwise_cons.mp hsort).1 x hx)⟩
    · rintro ⟨hx | hx | hx, hne⟩
      · exact Or.inl hx
      · exact absurd hx hne
      · exact Or.inr hx
  · simp only [removeIds, binarySearch, hpos, if_false]
    refine ⟨fun hx => ⟨hx, ?_⟩, And.left⟩
    rintro rfl
    exact hpos ((getElem?_partitionPoint_iff h x).mpr hx)

/-- Insert an id, maintaining sorted order. No-op if already present. -/
def insert (pl : PostingList) (id : ℕ) : PostingList :=
  ⟨insertIds pl.ids id, sorted_insertIds pl.sorted id⟩

/-- Remove an id. -/
def remove (pl : PostingList) (id : ℕ) : PostingList :=
  ⟨removeIds pl.ids id, sorted_removeIds pl.sorted id⟩

@[simp] theorem mem_insert {pl : PostingList} {id x : ℕ} :
    x ∈ pl.insert id ↔ x = id ∨ x ∈ pl :=
  mem_insertIds

@[simp] theorem mem_remove {pl : PostingList} {id x : ℕ} :
    x ∈ pl.remove id ↔ x ∈ pl ∧ x ≠ id :=
  mem_removeIds pl.sorted

instance : RemovableBag PostingList ℕ where
  empty := new
  insert id pl := pl.insert id
  remove id pl := pl.remove id
  isEmpty := isEmpty
  notMem_empty := notMem_new
  mem_insert := mem_insert
  mem_remove := mem_remove
  isEmpty_iff := isEmpty_iff

/-- A posting list is the set of its ids. -/
theorem ext_mem {a b : PostingList} (h : ∀ id, id ∈ a ↔ id ∈ b) : a = b := by
  have hperm : a.ids.Perm b.ids := (List.perm_ext_iff_of_nodup a.nodup b.nodup).mpr h
  have hids : a.ids = b.ids :=
    hperm.eq_of_pairwise (fun _ _ _ _ hab hba => absurd hab hba.asymm) a.sorted b.sorted
  obtain ⟨ids, _⟩ := a
  obtain rfl := hids
  rfl

/-! ### Building from arbitrary ids -/

/-- `Vec::dedup`: one element of every run of equal neighbours. -/
def dedup : List ℕ → List ℕ
  | [] => []
  | [x] => [x]
  | x :: y :: l => if x = y then dedup (y :: l) else x :: dedup (y :: l)

theorem mem_dedup {x : ℕ} : ∀ {l : List ℕ}, x ∈ dedup l ↔ x ∈ l
  | [] => Iff.rfl
  | [_] => Iff.rfl
  | y :: z :: l => by
    rw [dedup]
    split
    · next hyz => simp only [mem_dedup, hyz, List.mem_cons]; tauto
    · rw [List.mem_cons, mem_dedup, ← List.mem_cons]

theorem sorted_dedup : ∀ {l : List ℕ}, l.Pairwise (· ≤ ·) → (dedup l).Pairwise (· < ·)
  | [], _ => List.Pairwise.nil
  | [_], _ => List.pairwise_singleton _ _
  | y :: z :: l, h => by
    obtain ⟨hy, hrest⟩ := List.pairwise_cons.mp h
    rw [dedup]
    split
    · exact sorted_dedup hrest
    · next hne =>
      refine List.pairwise_cons.mpr ⟨fun w hw => ?_, sorted_dedup hrest⟩
      have hlt : y < z := lt_of_le_of_ne (hy z List.mem_cons_self) hne
      rcases List.mem_cons.mp (mem_dedup.mp hw) with rfl | hw
      · exact hlt
      · exact lt_of_lt_of_le hlt ((List.pairwise_cons.mp hrest).1 w hw)

/-- Create a posting list from ids that may contain duplicates. -/
def fromIds (ids : List ℕ) : PostingList :=
  ⟨dedup (ids.sortByKey fun x => x), sorted_dedup (List.sortedBy_sortByKey (fun x : ℕ => x) ids)⟩

@[simp] theorem mem_fromIds {ids : List ℕ} {id : ℕ} : id ∈ fromIds ids ↔ id ∈ ids := by
  rw [mem_def, fromIds, mem_dedup, List.mem_sortByKey]

/-! ### Merging -/

/-- The loop of `difference`: the ids of the first list that the second does not have. -/
def differenceIds : List ℕ → List ℕ → List ℕ
  | [], _ => []
  | a, [] => a
  | x :: a, y :: b =>
    if x < y then x :: differenceIds a (y :: b)
    else if y < x then differenceIds (x :: a) b
    else differenceIds a b
termination_by a b => a.length + b.length

/-- The loop of `union`: every id once, in order. -/
def unionIds : List ℕ → List ℕ → List ℕ
  | [], b => b
  | a, [] => a
  | x :: a, y :: b =>
    if x < y then x :: unionIds a (y :: b)
    else if y < x then y :: unionIds (x :: a) b
    else x :: unionIds a b
termination_by a b => a.length + b.length

/-- Intersect two sorted slices using merge algorithm. -/
def intersectTwo : List ℕ → List ℕ → List ℕ
  | [], _ => []
  | _, [] => []
  | x :: a, y :: b =>
    if x < y then intersectTwo a (y :: b)
    else if y < x then intersectTwo (x :: a) b
    else x :: intersectTwo a b
termination_by a b => a.length + b.length

/-- In an increasing list, nothing as small as a bound of the head occurs. -/
theorem notMem_of_lt_head {x z : ℕ} {l : List ℕ} (h : (x :: l).Pairwise (· < ·)) (hz : z < x) :
    z ∉ x :: l := by
  rw [List.mem_cons, not_or]
  refine ⟨ne_of_lt hz, fun hm => ?_⟩
  have := (List.pairwise_cons.mp h).1 z hm
  omega

theorem notMem_tail {x : ℕ} {l : List ℕ} (h : (x :: l).Pairwise (· < ·)) : x ∉ l := fun hm =>
  absurd ((List.pairwise_cons.mp h).1 x hm) (lt_irrefl x)

theorem mem_differenceIds {a b : List ℕ} (ha : a.Pairwise (· < ·)) (hb : b.Pairwise (· < ·))
    {z : ℕ} : z ∈ differenceIds a b ↔ z ∈ a ∧ z ∉ b := by
  induction a, b using differenceIds.induct with
  | case1 b => simp [differenceIds]
  | case2 a hne => cases a <;> simp [differenceIds]
  | case3 x a y b hxy ih =>
    rw [differenceIds, if_pos hxy, List.mem_cons, ih ha.of_cons hb, List.mem_cons (b := x)]
    have := notMem_of_lt_head hb hxy
    constructor
    · rintro (rfl | ⟨h1, h2⟩)
      · exact ⟨Or.inl rfl, this⟩
      · exact ⟨Or.inr h1, h2⟩
    · rintro ⟨rfl | h1, h2⟩
      · exact Or.inl rfl
      · exact Or.inr ⟨h1, h2⟩
  | case4 x a y b hxy hyx ih =>
    rw [differenceIds, if_neg hxy, if_pos hyx, ih ha hb.of_cons, List.mem_cons (b := y)]
    refine and_congr_right fun hz => ?_
    have : z ≠ y := by rintro rfl; exact notMem_of_lt_head ha hyx hz
    simp [this]
  | case5 x a y b hxy hyx ih =>
    obtain rfl : x = y := by omega
    rw [differenceIds, if_neg hxy, if_neg hyx, ih ha.of_cons hb.of_cons, List.mem_cons,
      List.mem_cons]
    have hxa := notMem_tail ha
    constructor
    · rintro ⟨h1, h2⟩
      exact ⟨Or.inr h1, by rintro (rfl | h3); exacts [hxa h1, h2 h3]⟩
    · rintro ⟨rfl | h1, h2⟩
      · exact absurd (Or.inl rfl) h2
      · exact ⟨h1, fun h3 => h2 (Or.inr h3)⟩

theorem differenceIds_sublist (a b : List ℕ) : (differenceIds a b).Sublist a := by
  induction a, b using differenceIds.induct with
  | case1 b => simp [differenceIds]
  | case2 a hne => cases a <;> simp [differenceIds]
  | case3 x a y b hxy ih => rw [differenceIds, if_pos hxy]; exact ih.cons_cons x
  | case4 x a y b hxy hyx ih => rw [differenceIds, if_neg hxy, if_pos hyx]; exact ih
  | case5 x a y b hxy hyx ih => rw [differenceIds, if_neg hxy, if_neg hyx]; exact ih.cons x

theorem mem_intersectTwo {a b : List ℕ} (ha : a.Pairwise (· < ·)) (hb : b.Pairwise (· < ·))
    {z : ℕ} : z ∈ intersectTwo a b ↔ z ∈ a ∧ z ∈ b := by
  induction a, b using intersectTwo.induct with
  | case1 b => simp [intersectTwo]
  | case2 a hne => cases a <;> simp [intersectTwo]
  | case3 x a y b hxy ih =>
    rw [intersectTwo, if_pos hxy, ih ha.of_cons hb, List.mem_cons (b := x)]
    have : ∀ h : z ∈ y :: b, z ≠ x := by rintro h rfl; exact notMem_of_lt_head hb hxy h
    constructor
    · exact fun h => ⟨Or.inr h.1, h.2⟩
    · exact fun h => ⟨h.1.resolve_left (this h.2), h.2⟩
  | case4 x a y b hxy hyx ih =>
    rw [intersectTwo, if_neg hxy, if_pos hyx, ih ha hb.of_cons, List.mem_cons (b := y)]
    have : ∀ h : z ∈ x :: a, z ≠ y := by rintro h rfl; exact notMem_of_lt_head ha hyx h
    constructor
    · exact fun h => ⟨h.1, Or.inr h.2⟩
    · exact fun h => ⟨h.1, h.2.resolve_left (this h.1)⟩
  | case5 x a y b hxy hyx ih =>
    obtain rfl : x = y := by omega
    rw [intersectTwo, if_neg hxy, if_neg hyx, List.mem_cons, ih ha.of_cons hb.of_cons,
      List.mem_cons, List.mem_cons]
    tauto

theorem intersectTwo_sublist (a b : List ℕ) : (intersectTwo a b).Sublist a := by
  induction a, b using intersectTwo.induct with
  | case1 b => simp [intersectTwo]
  | case2 a hne => cases a <;> simp [intersectTwo]
  | case3 x a y b hxy ih => rw [intersectTwo, if_pos hxy]; exact ih.cons x
  | case4 x a y b hxy hyx ih => rw [intersectTwo, if_neg hxy, if_pos hyx]; exact ih
  | case5 x a y b hxy hyx ih => rw [intersectTwo, if_neg hxy, if_neg hyx]; exact ih.cons_cons x

theorem mem_unionIds {a b : List ℕ} {z : ℕ} : z ∈ unionIds a b ↔ z ∈ a ∨ z ∈ b := by
  induction a, b using unionIds.induct with
  | case1 b => simp [unionIds]
  | case2 a hne => cases a <;> simp [unionIds]
  | case3 x a y b hxy ih =>
    rw [unionIds, if_pos hxy, List.mem_cons, ih, List.mem_cons (b := x), or_assoc]
  | case4 x a y b hxy hyx ih =>
    rw [unionIds, if_neg hxy, if_pos hyx, List.mem_cons, ih, List.mem_cons (b := y)]
    exact or_left_comm
  | case5 x a y b hxy hyx ih =>
    obtain rfl : x = y := by omega
    rw [unionIds, if_neg hxy, if_neg hyx, List.mem_cons, ih, List.mem_cons, List.mem_cons]
    tauto

theorem sorted_unionIds {a b : List ℕ} (ha : a.Pairwise (· < ·)) (hb : b.Pairwise (· < ·)) :
    (unionIds a b).Pairwise (· < ·) := by
  induction a, b using unionIds.induct with
  | case1 b => simpa [unionIds] using hb
  | case2 a hne => cases a <;> simp_all [unionIds]
  | case3 x a y b hxy ih =>
    rw [unionIds, if_pos hxy]
    refine List.pairwise_cons.mpr ⟨fun z hz => ?_, ih ha.of_cons hb⟩
    rcases mem_unionIds.mp hz with hz | hz
    · exact (List.pairwise_cons.mp ha).1 z hz
    · by_contra hlt
      exact notMem_of_lt_head hb (show z < y by omega) hz
  | case4 x a y b hxy hyx ih =>
    rw [unionIds, if_neg hxy, if_pos hyx]
    refine List.pairwise_cons.mpr ⟨fun z hz => ?_, ih ha hb.of_cons⟩
    rcases mem_unionIds.mp hz with hz | hz
    · by_contra hlt
      exact notMem_of_lt_head ha (show z < x by omega) hz
    · exact (List.pairwise_cons.mp hb).1 z hz
  | case5 x a y b hxy hyx ih =>
    obtain rfl : x = y := by omega
    rw [unionIds, if_neg hxy, if_neg hyx]
    refine List.pairwise_cons.mpr ⟨fun z hz => ?_, ih ha.of_cons hb.of_cons⟩
    rcases mem_unionIds.mp hz with hz | hz
    · exact (List.pairwise_cons.mp ha).1 z hz
    · exact (List.pairwise_cons.mp hb).1 z hz

/-- Return ids present in `a` and absent from `b`. -/
def difference (a b : PostingList) : PostingList :=
  ⟨differenceIds a.ids b.ids, a.sorted.sublist (differenceIds_sublist _ _)⟩

/-- Union two posting lists into a new one. -/
def union (a b : PostingList) : PostingList :=
  ⟨unionIds a.ids b.ids, sorted_unionIds a.sorted b.sorted⟩

@[simp] theorem mem_difference {a b : PostingList} {z : ℕ} :
    z ∈ difference a b ↔ z ∈ a ∧ z ∉ b :=
  mem_differenceIds a.sorted b.sorted

@[simp] theorem mem_union {a b : PostingList} {z : ℕ} : z ∈ union a b ↔ z ∈ a ∨ z ∈ b :=
  mem_unionIds

/-! ### The n-way intersection -/

/-- The loop of `intersect` over the lists after the first, with its early exit. -/
def intersectLoop : List ℕ → List PostingList → List ℕ
  | result, [] => result
  | result, list :: rest =>
    if (intersectTwo result list.ids).isEmpty then intersectTwo result list.ids
    else intersectLoop (intersectTwo result list.ids) rest

/-- Intersect multiple posting lists, starting with the smallest. -/
def intersect (lists : List PostingList) : List ℕ :=
  match lists with
  | [] => []
  | [list] => list.ids
  | l₁ :: l₂ :: ls =>
    match (l₁ :: l₂ :: ls).sortByKey fun l => l.ids.length with
    | [] => []
    | first :: rest => intersectLoop first.ids rest

theorem sorted_intersectLoop {result : List ℕ} (h : result.Pairwise (· < ·))
    (rest : List PostingList) : (intersectLoop result rest).Pairwise (· < ·) := by
  induction rest generalizing result with
  | nil => exact h
  | cons list rest ih =>
    have hnext := h.sublist (intersectTwo_sublist result list.ids)
    rw [intersectLoop]
    split
    · exact hnext
    · exact ih hnext

theorem mem_intersectLoop {result : List ℕ} (h : result.Pairwise (· < ·))
    (rest : List PostingList) {z : ℕ} :
    z ∈ intersectLoop result rest ↔ z ∈ result ∧ ∀ l ∈ rest, z ∈ l := by
  induction rest generalizing result with
  | nil => simp [intersectLoop]
  | cons list rest ih =>
    have hnext := h.sublist (intersectTwo_sublist result list.ids)
    have hmem : z ∈ intersectTwo result list.ids ↔ z ∈ result ∧ z ∈ list :=
      mem_intersectTwo h list.sorted
    rw [intersectLoop, List.forall_mem_cons, ← and_assoc, ← hmem]
    split
    · next hemp => simp [List.isEmpty_iff.mp hemp]
    · exact ih hnext

theorem sorted_intersect (lists : List PostingList) : (intersect lists).Pairwise (· < ·) := by
  match lists with
  | [] => exact List.Pairwise.nil
  | [list] => exact list.sorted
  | l₁ :: l₂ :: ls =>
    rw [intersect]
    split
    · exact List.Pairwise.nil
    · next first rest _ => exact sorted_intersectLoop first.sorted rest

/-- **The n-way intersection**, whatever the number, the sizes and the order of its inputs. -/
theorem mem_intersect {lists : List PostingList} (hne : lists ≠ []) {z : ℕ} :
    z ∈ intersect lists ↔ ∀ l ∈ lists, z ∈ l := by
  match lists with
  | [] => exact absurd rfl hne
  | [list] => simp [intersect, mem_def]
  | l₁ :: l₂ :: ls =>
    have hperm := List.sortByKey_perm (fun l : PostingList => l.ids.length) (l₁ :: l₂ :: ls)
    rw [intersect]
    split
    · next hnil =>
      rw [hnil] at hperm
      exact absurd hperm.symm.eq_nil (List.cons_ne_nil _ _)
    · next first rest hcons =>
      rw [mem_intersectLoop first.sorted, ← mem_def, ← List.forall_mem_cons (p := (z ∈ ·)),
        ← hcons]
      exact forall_congr' fun l => imp_congr_left hperm.mem_iff

/-! ### Posting lists as sets -/

/-- The set of the ids. -/
def toSet (pl : PostingList) : Set ℕ := {id | id ∈ pl}

theorem toSet_insert (pl : PostingList) (id : ℕ) :
    (pl.insert id).toSet = Insert.insert id pl.toSet :=
  Set.ext fun _ => mem_insert

theorem toSet_remove (pl : PostingList) (id : ℕ) : (pl.remove id).toSet = pl.toSet \ {id} :=
  Set.ext fun _ => mem_remove

theorem toSet_fromIds (ids : List ℕ) : (fromIds ids).toSet = {id | id ∈ ids} :=
  Set.ext fun _ => mem_fromIds

theorem toSet_union (a b : PostingList) : (union a b).toSet = a.toSet ∪ b.toSet :=
  Set.ext fun _ => mem_union

theorem toSet_difference (a b : PostingList) : (difference a b).toSet = a.toSet \ b.toSet :=
  Set.ext fun _ => mem_difference

theorem setOf_mem_intersect (list : PostingList) (lists : List PostingList) :
    {id | id ∈ intersect (list :: lists)} = ⋂ l ∈ list :: lists, l.toSet := by
  ext id
  rw [Set.mem_iInter₂]
  exact mem_intersect (List.cons_ne_nil list lists)

/-- **The operations are those on sets**, and what they give is strictly sorted. -/
theorem operations_exact :
    (∀ (pl : PostingList) (id : ℕ), (pl.insert id).ids.Pairwise (· < ·) ∧
      (pl.insert id).toSet = Insert.insert id pl.toSet) ∧
    (∀ (pl : PostingList) (id : ℕ), (pl.remove id).ids.Pairwise (· < ·) ∧
      (pl.remove id).toSet = pl.toSet \ {id}) ∧
    (∀ ids : List ℕ, (fromIds ids).ids.Pairwise (· < ·) ∧
      (fromIds ids).toSet = {id | id ∈ ids}) ∧
    (∀ a b : PostingList, (union a b).ids.Pairwise (· < ·) ∧
      (union a b).toSet = a.toSet ∪ b.toSet) ∧
    (∀ a b : PostingList, (difference a b).ids.Pairwise (· < ·) ∧
      (difference a b).toSet = a.toSet \ b.toSet) ∧
    ∀ (list : PostingList) (lists : List PostingList),
      (intersect (list :: lists)).Pairwise (· < ·) ∧
        {id | id ∈ intersect (list :: lists)} = ⋂ l ∈ list :: lists, l.toSet :=
  ⟨fun pl id => ⟨(pl.insert id).sorted, toSet_insert pl id⟩,
    fun pl id => ⟨(pl.remove id).sorted, toSet_remove pl id⟩,
    fun ids => ⟨(fromIds ids).sorted, toSet_fromIds ids⟩,
    fun a b => ⟨(union a b).sorted, toSet_union a b⟩,
    fun a b => ⟨(difference a b).sorted, toSet_difference a b⟩,
    fun list lists => ⟨sorted_intersect _, setOf_mem_intersect list lists⟩⟩

example : (intersect [fromIds [9, 1, 5, 3, 7], fromIds [2, 3, 5, 8, 9], fromIds [5, 9]]) = [5, 9] := by
  decide +kernel

end PostingList

end Aniani
