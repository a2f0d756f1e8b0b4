import Aniani.ForMathlib.TopK

/-!
# A binary heap in a vector

The heap of the standard library: the elements are in a vector, each no greater than its two
children, and the vector is what an iteration walks. A push adds an element at the end and sifts it
up. A pop puts the last element at the root, sifts it down to the bottom along the lesser children,
and then up again.

## Main definitions

* `BinaryHeap.siftUp`, `BinaryHeap.siftDownToBottom`
* `MinHeap.binary`
-/

namespace BinaryHeap

variable {α κ : Type} [LinearOrder κ]

/-- The element at a position moves up while it is less than its parent. -/
def siftUp (key : α → κ) : ℕ → List α → ℕ → List α
  | 0, data, _ => data
  | fuel + 1, data, pos =>
    if pos = 0 then data
    else
      match data[pos]?, data[(pos - 1) / 2]? with
      | some a, some parent =>
        if key parent ≤ key a then data
        else siftUp key fuel ((data.set pos parent).set ((pos - 1) / 2) a) ((pos - 1) / 2)
      | _, _ => data

/-- The element at a position moves down to the bottom, in the place of the lesser child each time;
of equal ones, in that of the second. -/
def siftDownToBottom (key : α → κ) : ℕ → List α → ℕ → List α × ℕ
  | 0, data, pos => (data, pos)
  | fuel + 1, data, pos =>
    match data[pos]?, data[2 * pos + 1]?, data[2 * pos + 2]? with
    | some a, some left, some right =>
      if key right ≤ key left then
        siftDownToBottom key fuel ((data.set pos right).set (2 * pos + 2) a) (2 * pos + 2)
      else siftDownToBottom key fuel ((data.set pos left).set (2 * pos + 1) a) (2 * pos + 1)
    | some a, some left, none => ((data.set pos left).set (2 * pos + 1) a, 2 * pos + 1)
    | _, _, _ => (data, pos)

/-- `push`. -/
def push (key : α → κ) (data : List α) (a : α) : List α :=
  siftUp key data.length (data ++ [a]) data.length

/-- `pop`. -/
def pop (key : α → κ) (data : List α) : List α :=
  match data.getLast?, data.dropLast with
  | some last, _ :: rest =>
    let sifted := siftDownToBottom key rest.length (last :: rest) 0
    siftUp key (rest.length + 1) sifted.1 sifted.2
  | _, _ => []

end BinaryHeap

/-- The binary heap. -/
def MinHeap.binary {α κ : Type} [LinearOrder κ] (key : α → κ) : MinHeap α where
  Heap := List α
  empty := []
  push := BinaryHeap.push key
  peek := List.head?
  pop := BinaryHeap.pop key
  toList data := data
