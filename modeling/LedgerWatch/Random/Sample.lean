import LedgerWatch.Random.Draws

namespace LedgerWatch.Random

def Stream.position (lo hi : Nat) (s : Stream) : Nat × Stream :=
  if h : 0 < hi - lo then
    let (i, s) := s.index32 (hi - lo) h
    (lo + i, s)
  else (lo, s)

/-- Swaps each of the positions with one from itself on and below `n`. -/
def shuffleFront (n : Nat) : List Nat → Array Nat → Stream → Array Nat × Stream
  | [], a, s => (a, s)
  | i :: is, a, s =>
    let (j, s) := s.position i n
    shuffleFront n is (a.swapIfInBounds i j) s

def sampleInPlace (n k : Nat) (s : Stream) : List Nat × Stream :=
  let (a, s) := shuffleFront n (List.range k) (Array.range n) s
  (a.toList.take k, s)

/-- Picks a position up to `j` for each `j`; a position that was picked before is replaced by `j`
itself, put in front of it or at the end. -/
def pick (inFront : Bool) : List Nat → List Nat → Stream → List Nat × Stream
  | [], picks, s => (picks, s)
  | j :: js, picks, s =>
    let (t, s) := s.position 0 (j + 1)
    if picks.contains t then
      let place := if inFront then picks.idxOf t else picks.length
      pick inFront js (picks.insertIdx place j) s
    else pick inFront js (picks ++ [t]) s

/-- Swaps each of the positions with one up to itself. -/
def shuffleBack : List Nat → Array Nat → Stream → Array Nat × Stream
  | [], a, s => (a, s)
  | i :: is, a, s =>
    let (j, s) := s.position 0 (i + 1)
    shuffleBack is (a.swapIfInBounds i j) s

/-- Fewer picks than this come out in random order; more are shuffled at the end. -/
def fewPicks : Nat := 50

def sampleOneByOne (n k : Nat) (s : Stream) : List Nat × Stream :=
  let (picks, s) := pick (k < fewPicks) (List.range' (n - k) k) [] s
  if k < fewPicks then (picks, s)
  else
    let (a, s) := shuffleBack (List.range' 1 (k - 1)).reverse picks.toArray s
    (a.toList, s)

/-- A position below `n` that is not picked yet, from the words of a stream. -/
def drawNew {size n : Nat} (h : 0 < n) (next : Stream → Fin size × Stream) (picks : List Nat)
    (s : Stream) : Fin n × Stream :=
  let attempt (s : Stream) :=
    let (v, s) := next s
    ((accept (evenZone size n) h v).filter fun i => !picks.contains i.val, s)
  retry attempt ⟨0, h⟩ period s

def pickNew {size n : Nat} (h : 0 < n) (next : Stream → Fin size × Stream) :
    Nat → List Nat → Stream → List Nat × Stream
  | 0, picks, s => (picks, s)
  | k + 1, picks, s =>
    let (i, s) := drawNew h next picks s
    pickNew h next k (picks ++ [i.val]) s

def sampleSparse {size : Nat} (next : Stream → Fin size × Stream) (n k : Nat) (s : Stream) :
    List Nat × Stream :=
  if h : 0 < n then pickNew h next k [] s else ([], s)

/-- A number to 24 binary digits; of two that are equally near the even one. -/
def toSingle (n : Nat) : Nat :=
  let unit := Nat.pow 2 (n.log2 - 23)
  let below := n / unit
  let rest := n % unit
  if unit < 2 * rest ∨ (2 * rest = unit ∧ below % 2 = 1) then (below + 1) * unit else below * unit

inductive Way
  | inPlace
  | oneByOne
  /-- Draws whatever position comes, and again where it came before. -/
  | sparse

/-- Up to 162 positions are picked one by one, unless the range is short for them; more of them are
shuffled out of a range that is not too long. In a long range the bound is `330 / 9 * k`, worked out
in single precision. -/
def wayOf (n k : Nat) : Way :=
  if k < 163 then
    if 11 < k ∧ n < 500000 ∧ 5 * n < (50 + 8 * k) * k then .inPlace else .oneByOne
  else if n < 500000 then
    if n < 270 * k then .inPlace else .sparse
  else if toSingle n * Nat.pow 2 18 < toSingle (9611947 * toSingle k) then .inPlace else .sparse

def Stream.sample (n k : Nat) (s : Stream) : List Nat × Stream :=
  if n < UInt32.size then
    match wayOf n k with
    | .inPlace => sampleInPlace n k s
    | .oneByOne => sampleOneByOne n k s
    | .sparse => sampleSparse (fun s => let (v, s) := s.word32; (v.toFin, s)) n k s
  else sampleSparse (fun s => let (v, s) := s.word64; (v.toFin, s)) n k s

end LedgerWatch.Random
