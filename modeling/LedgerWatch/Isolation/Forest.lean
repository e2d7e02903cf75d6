import LedgerWatch.Isolation.Tree
import LedgerWatch.Random.Sample
import LedgerWatch.Detector

namespace LedgerWatch.Isolation

structure Settings where
  trees : UInt64 := 100
  maxSamples : UInt64 := 256
  /-- At most this share of the records is flagged. -/
  contamination : Float := 0.1
  scoreThreshold : Float := 0.5
  /-- Tree `i` draws from the seed `seed + i`; without one the seed comes from outside. -/
  seed : Option UInt64 := none

def Settings.check (c : Settings) : Except Fault Unit := do
  Fault.require (c.trees != 0)
    (.ofCount "isolation_forest.n_trees" c.trees "must be at least 1")
  Fault.require (2 ≤ c.maxSamples)
    (.ofCount "isolation_forest.max_samples" c.maxSamples "must be at least 2")
  Fault.require (0 < c.contamination && c.contamination ≤ 0.5)
    (.ofNumber "isolation_forest.contamination" c.contamination "must be in (0, 0.5]")
  Fault.require (0 < c.scoreThreshold && c.scoreThreshold < 1)
    (.ofNumber "isolation_forest.score_threshold" c.scoreThreshold "must be in (0, 1)")

def scorable (t : Table) : List Nat :=
  (List.range t.height).filter fun i => (t.row i).any fun x => !x.isNaN

/-- The least number of halvings that bring `n` down to one. -/
def depthLimit (n : Nat) : Nat := if n ≤ 1 then 0 else (n - 1).log2 + 1

def plant? (t : Table) (rows : List Nat) (size : Nat) (seed : UInt64) : Option Tree := do
  let (picks, s) := (Random.Stream.ofSeed seed).sample rows.length size
  let lookup := rows.toArray
  let sample ← picks.mapM fun i => lookup[i]?
  let (tree, _) ← build? Random.Stream.draws t sample 0 (depthLimit size) s
  return tree

def Settings.sampleSize (c : Settings) (rows : Nat) : Nat := min c.maxSamples.toNat rows

/-- A list has at most `2 ^ 63 - 1` bytes, and a tree takes 32 of them. -/
def treeCapacity : Nat := (Nat.pow 2 63 - 1) / 32

/-- Whether so many trees are asked for that no list holds them. -/
def Settings.OverCapacity (c : Settings) : Prop := treeCapacity < c.trees.toNat

instance (c : Settings) : Decidable c.OverCapacity := inferInstanceAs (Decidable (_ < _))

def Settings.plantAll? (c : Settings) (seed : UInt64) (t : Table) (rows : List Nat) :
    Option (List Tree) :=
  (List.range c.trees.toNat).mapM fun i =>
    plant? t rows (c.sampleSize rows.length) (seed + UInt64.ofNat i)

/-- The trees of a forest. Room is made for all of them before the first one is grown. -/
def Settings.forest? (c : Settings) (seed : UInt64) (t : Table) (rows : List Nat) :
    Except Crash (List Tree) :=
  if c.OverCapacity then .error .overCapacity
  else Crash.unlessFound (c.plantAll? seed t rows)

def meanPath? (trees : List Tree) (sample : List Float) : Option Float := do
  let paths ← trees.mapM fun tree => tree.pathLength? sample
  return paths.foldl (· + ·) 0 / Float.ofNat trees.length

/-- The score of a record; it is one half where the way is as long as a search without success. -/
def scoreOf (path cost : Float) : Float := Elementary.halving (path / cost)

/-- The mean path behind a score. -/
def pathOf (score cost : Float) : Float := Elementary.halvings score * cost

def scoreWith? (trees : List Tree) (cost : Float) (sample : List Float) : Option (Option Float) :=
  if sample.any fun x => !x.isNaN then do
    let path ← meanPath? trees sample
    return some (scoreOf path cost)
  else some none

/-- A score for each row with a value, if there are at least two of them. -/
def Settings.scores? (c : Settings) (seed : UInt64) (t : Table) :
    Except Crash (List (Option Float)) :=
  let rows := scorable t
  if rows.length < 2 then .ok (List.replicate t.height none)
  else do
    let trees ← c.forest? seed t rows
    let cost := searchCost (c.sampleSize rows.length)
    Crash.unlessFound (t.rows.toList.mapM (scoreWith? trees cost))

/-- The scores above the threshold with their rows, highest first. -/
def candidates (threshold : Float) (scores : List (Option Float)) : List (Nat × Float) :=
  let scored := scores.zipIdx.filterMap fun p => p.1.map fun score => (p.2, score)
  (scored.filter fun p => threshold < p.2).mergeSort fun p q =>
    Binary64.totalOrderKey q.2 ≤ Binary64.totalOrderKey p.2

/-- How many records may be flagged: at least one. -/
def Settings.limit (c : Settings) (scored : Nat) : Nat :=
  max 1 (Binary64.ceilCount (c.contamination * Float.ofNat scored))

def Settings.flagged (c : Settings) (scores : List (Option Float)) : List (Nat × Float) :=
  (candidates c.scoreThreshold scores).take (c.limit (scores.countP Option.isSome))

/-- The scores of a batch, or the outcome that stands in their place. -/
def Settings.batchScores (c : Settings) (scaling : Scaling) (entropy : UInt64)
    (records : List Record) : Except Outcome (List (Option Float)) :=
  match c.check with
  | .error fault => .error (.failed fault)
  | .ok () =>
    (c.scores? (c.seed.getD entropy) (scaledFeatures records scaling)).mapError .crashed

def Settings.detect (c : Settings) (scaling : Scaling) (bands : Bands) (entropy : UInt64)
    (records : List Record) : Outcome :=
  match c.batchScores scaling entropy records with
  | .error outcome => outcome
  | .ok scores =>
    let cost := searchCost (c.sampleSize (scores.countP Option.isSome))
    .found <| (c.flagged scores).map fun (i, score) =>
      .of bands .isolation i score (.isolation (pathOf score cost) c.trees.toNat)

/-- `entropy` is the seed where the settings have none. -/
def detector (c : Settings) (scaling : Scaling) (bands : Bands) (entropy : UInt64) : Detector :=
  .ofMethod .isolation (c.detect scaling bands entropy)

end LedgerWatch.Isolation
