import LedgerWatch.Random.Stream
import LedgerWatch.Number.Binary64

namespace LedgerWatch.Random

structure Draws (σ : Type) where
  index : (n : Nat) → 0 < n → σ → Fin n × σ
  /-- A number from `lo` on and below `hi`. -/
  between : (lo hi : Float) → lo < hi → σ → { x : Float // lo ≤ x ∧ x < hi } × σ
  /-- A number from zero on and below one. -/
  unit : σ → { t : Float // 0 ≤ t ∧ t < 1 } × σ

/-- Tries until a try is accepted, at most a number of times. -/
def retry {σ α : Type} (attempt : σ → Option α × σ) (last : α) : Nat → σ → α × σ
  | 0, s => (last, s)
  | tries + 1, s =>
    match attempt s with
    | (some x, s) => (x, s)
    | (none, s) => retry attempt last tries s

/-- Words after which a stream comes back to where it was. A draw that every one of them fails
never ends. -/
@[irreducible] def period : Nat := Nat.pow 2 68

/-- The highest remainder that counts: one less than the range shifted to the top of the word. -/
def zone (bits range : Nat) : Nat := range * Nat.pow 2 (bits - 1 - range.log2) - 1

/-- The same where many numbers are drawn from one range: as high as leaves no bias. -/
def evenZone (size range : Nat) : Nat := size - 1 - (size - range) % range

theorem mul_div_lt {v r b : Nat} (hv : v < b) (hr : 0 < r) : v * r / b < r :=
  Nat.div_lt_of_lt_mul ((Nat.mul_lt_mul_right hr).2 hv)

/-- The part of a range that a word below `size` falls into, unless its remainder is too high. -/
def accept {size range : Nat} (zone : Nat) (h : 0 < range) (v : Fin size) : Option (Fin range) :=
  if v * range % size ≤ zone then some ⟨v * range / size, mul_div_lt v.isLt h⟩ else none

namespace Stream

def index32 (range : Nat) (h : 0 < range) (s : Stream) : Fin range × Stream :=
  let attempt (s : Stream) :=
    let (v, s) := s.word32
    (accept (zone 32 range) h v.toFin, s)
  retry attempt ⟨0, h⟩ period s

def index64 (range : Nat) (h : 0 < range) (s : Stream) : Fin range × Stream :=
  let attempt (s : Stream) :=
    let (v, s) := s.word64
    (accept (zone 64 range) h v.toFin, s)
  retry attempt ⟨0, h⟩ period s

/-- A word's upper 52 bits as the digits of a number from one on and below two, less one. -/
def fraction52 (v : UInt64) : Float := Float.ofBits (v >>> 12 ||| 0x3FF0000000000000) - 1

/-- A word's upper 53 bits as the digits of a number from zero on and below one. -/
def fraction53 (v : UInt64) : Float := (v >>> 11).toFloat * Float.ofBits 0x3CA0000000000000

def inBetween? (lo hi : Float) (v : UInt64) : Option { x : Float // lo ≤ x ∧ x < hi } :=
  let x := fraction52 v * (hi - lo) + lo
  if hx : lo ≤ x ∧ x < hi then some ⟨x, hx⟩ else none

def between (lo hi : Float) (h : lo < hi) (s : Stream) :
    { x : Float // lo ≤ x ∧ x < hi } × Stream :=
  let attempt (s : Stream) :=
    let (v, s) := s.word64
    (inBetween? lo hi v, s)
  retry attempt ⟨lo, Binary64.le_self_of_lt h, h⟩ period s

def unit (s : Stream) : { t : Float // 0 ≤ t ∧ t < 1 } × Stream :=
  let (v, s) := s.word64
  let t := fraction53 v
  if ht : 0 ≤ t ∧ t < 1 then (⟨t, ht⟩, s) else (⟨0, by decide⟩, s)

end Stream

def Stream.draws : Draws Stream where
  index n h s := s.index64 n h
  between lo hi h s := s.between lo hi h
  unit := Stream.unit

end LedgerWatch.Random
