/-!
A seeded stream of random words: ChaCha with eight rounds, a 64-bit block counter from zero on and
a key that is spread out from a 64-bit seed.
-/

namespace LedgerWatch.Random

structure Stream where
  key : Vector UInt32 8
  block : UInt64
  /-- Words of the last block that are still to come. -/
  ready : List UInt32

def rotateRight (x r : UInt32) : UInt32 := (x >>> r) ||| (x <<< (32 - r))

def rotateLeft (x r : UInt32) : UInt32 := (x <<< r) ||| (x >>> (32 - r))

def spreadStep (s : UInt64) : UInt64 := s * 6364136223846793005 + 11634580027462260723

/-- The word that a state of that generator gives. -/
def spreadWord (s : UInt64) : UInt32 :=
  rotateRight (((s >>> 18) ^^^ s) >>> 27).toUInt32 (s >>> 59).toUInt32

def spread : Nat → UInt64 → List UInt32
  | 0, _ => []
  | n + 1, s => spreadWord (spreadStep s) :: spread n (spreadStep s)

theorem length_spread (n : Nat) (s : UInt64) : (spread n s).length = n := by
  induction n generalizing s with
  | zero => rfl
  | succ n ih => simp [spread, ih]

def Stream.ofSeed (seed : UInt64) : Stream :=
  ⟨⟨(spread 8 seed).toArray, by simp [length_spread]⟩, 0, []⟩

abbrev State := Vector UInt32 16

def quarterRound (s : State) (a b c d : Fin 16) : State :=
  let s := s.set a (s[a] + s[b])
  let s := s.set d (rotateLeft (s[d] ^^^ s[a]) 16)
  let s := s.set c (s[c] + s[d])
  let s := s.set b (rotateLeft (s[b] ^^^ s[c]) 12)
  let s := s.set a (s[a] + s[b])
  let s := s.set d (rotateLeft (s[d] ^^^ s[a]) 8)
  let s := s.set c (s[c] + s[d])
  s.set b (rotateLeft (s[b] ^^^ s[c]) 7)

/-- A round on the columns of the state and one on its diagonals. -/
def doubleRound (s : State) : State :=
  let s := quarterRound s 0 4 8 12
  let s := quarterRound s 1 5 9 13
  let s := quarterRound s 2 6 10 14
  let s := quarterRound s 3 7 11 15
  let s := quarterRound s 0 5 10 15
  let s := quarterRound s 1 6 11 12
  let s := quarterRound s 2 7 8 13
  quarterRound s 3 4 9 14

/-- Constants, key, block counter and an empty nonce. -/
def initialState (key : Vector UInt32 8) (block : UInt64) : State :=
  #v[0x61707865, 0x3320646e, 0x79622d32, 0x6b206574,
    key[0], key[1], key[2], key[3], key[4], key[5], key[6], key[7],
    block.toUInt32, (block >>> 32).toUInt32, 0, 0]

def blockWords (key : Vector UInt32 8) (block : UInt64) : List UInt32 :=
  let start := initialState key block
  let mixed := doubleRound (doubleRound (doubleRound (doubleRound start)))
  (Vector.zipWith (· + ·) start mixed).toList

namespace Stream

def word32 (s : Stream) : UInt32 × Stream :=
  match s.ready with
  | w :: ws => (w, { s with ready := ws })
  | [] =>
    let words := blockWords s.key s.block
    (words.headD 0, { s with block := s.block + 1, ready := words.tail })

/-- Two words as one, the low half first. -/
def word64 (s : Stream) : UInt64 × Stream :=
  let (low, s) := s.word32
  let (high, s) := s.word32
  (high.toUInt64 <<< 32 ||| low.toUInt64, s)

end Stream

end LedgerWatch.Random
