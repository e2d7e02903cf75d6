namespace LedgerWatch.Density

structure Entry where
  distance : Float
  row : Nat

/-- Whether an entry is no farther than another one. -/
def Entry.atMost (a b : Entry) : Bool := !(b.distance < a.distance)

def Entry.below (a b : Entry) : Bool := a.distance < b.distance

variable {n : Nat}

/-- Moves the entry at `i` up while it is farther than its parent. -/
def siftUp (h : Vector Entry n) (i : Nat) (hi : i < n) : Vector Entry n :=
  if hpos : 0 < i then
    let parent := (i - 1) / 2
    if h[i].atMost h[parent] then h
    else siftUp (h.swap i parent) parent (by omega)
  else h
termination_by i

/-- The farther child of `i`, the right one where both are level. -/
def fartherChild (h : Vector Entry n) (i : Nat) (hi : 2 * i + 2 < n) : Nat :=
  if h[2 * i + 1].atMost h[2 * i + 2] then 2 * i + 2 else 2 * i + 1

theorem fartherChild_bounds (h : Vector Entry n) (i : Nat) (hi : 2 * i + 2 < n) :
    2 * i + 1 ≤ fartherChild h i hi ∧ fartherChild h i hi ≤ 2 * i + 2 := by
  unfold fartherChild
  split <;> omega

/-- Moves the entry at `i` down to a leaf, past the farther child each time, and then up again. -/
def siftToBottom (h : Vector Entry n) (i : Nat) (hi : i < n) : Vector Entry n :=
  if hboth : 2 * i + 2 < n then
    let child := fartherChild h i hboth
    have hc := fartherChild_bounds h i hboth
    siftToBottom (h.swap i child (by omega) (by omega)) child (by omega)
  else if hone : 2 * i + 1 < n then
    siftUp (h.swap i (2 * i + 1)) (2 * i + 1) hone
  else siftUp h i hi
termination_by n - i

/-- Moves the entry at `i` down among the first `m` while a child is farther. -/
def siftDown (m : Nat) (hm : m ≤ n) (h : Vector Entry n) (i : Nat) : Vector Entry n :=
  if hboth : 2 * i + 2 < m then
    let child := fartherChild h i (by omega)
    have hc := fartherChild_bounds h i (by omega)
    have hchild : child < n := by omega
    have hi : i < n := by omega
    if h[child].atMost h[i] then h
    else siftDown m hm (h.swap i child) child
  else if hone : 2 * i + 1 < m then
    have hchild : 2 * i + 1 < n := by omega
    have hi : i < n := by omega
    if h[i].below h[2 * i + 1] then h.swap i (2 * i + 1) else h
  else h
termination_by m - i

/-- Takes the top of the first `m` entries behind the others, until the nearest one is in front. -/
def unload (h : Vector Entry n) : (m : Nat) → m ≤ n → Vector Entry n
  | 0, _ => h
  | 1, _ => h
  | m + 2, hm =>
    unload (siftDown (m + 1) (by omega) (h.swap 0 (m + 1) (by omega) (by omega)) 0) (m + 1)
      (by omega)

abbrev Heap := Array Entry

namespace Heap

def push (h : Heap) (e : Entry) : Heap :=
  (siftUp (Array.push h e).toVector h.size (by simp)).toArray

def pop (h : Heap) : Heap :=
  if hpos : 1 < h.size then
    let last := h[h.size - 1]
    let rest := Array.pop h
    have hrest : 0 < rest.size := by simp only [rest, Array.size_pop]; omega
    (siftToBottom (rest.set 0 last).toVector 0 (by simpa using hrest)).toArray
  else #[]

def toSortedList (h : Heap) : List Entry :=
  (unload h.toVector h.size (Nat.le_refl _)).toList

end Heap

end LedgerWatch.Density
