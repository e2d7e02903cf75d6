import LedgerWatch.Density.Neighbors
import LedgerWatch.Detector

namespace LedgerWatch.Density

structure Settings where
  neighbors : UInt64 := 10
  threshold : Float := 1.5
  scoreScale : Float := 3.0

def Settings.check (c : Settings) : Except Fault Unit := do
  Fault.require (c.neighbors != 0) (.ofCount "lof.k" c.neighbors "must be at least 1")
  Fault.require (0 < c.threshold) (.ofNumber "lof.threshold" c.threshold "must be positive")
  Fault.require (0 < c.scoreScale) (.ofNumber "lof.score_scale" c.scoreScale "must be positive")

/-- Keeps the density of a record finite that lies on top of its neighbors. -/
def reachEpsilon : Float := 1e-10

/-- What is known of a record: nothing, where it has no neighbor. -/
structure Standing where
  factor : Option Float
  density : Option Float
  farthest : Option Float
  neighbors : Nat

def meanOf (xs : List Float) : Float := xs.foldl (· + ·) 0 / Float.ofNat xs.length

/-- The distance to a neighbor, or the distance of its own farthest neighbor if that is larger. -/
def reach (farthest : Array (Option Float)) (e : Entry) : Float :=
  match (farthest[e.row]?).join with
  | none => e.distance
  | some far => Binary64.larger far e.distance

def density? (farthest : Array (Option Float)) (near : List Entry) : Option Float :=
  if near.isEmpty then none
  else some (1 / (meanOf (near.map (reach farthest)) + reachEpsilon))

def factor? (densities : Array (Option Float)) (near : List Entry) (own : Option Float) :
    Option Float := do
  let own ← own
  let others := near.filterMap fun e => (densities[e.row]?).join
  if others.isEmpty then none
  else
    let factor := meanOf others / own
    if factor.isFinite then some factor else none

/-- How many neighbors are looked for among `n` records. -/
def Settings.wanted (c : Settings) (n : Nat) : Nat := min c.neighbors.toNat (n - 1)

def Settings.standings (c : Settings) (rows : List (List Float)) : List Standing :=
  if rows.length < 2 then rows.map fun _ => ⟨none, none, none, 0⟩
  else
    let near := (List.range rows.length).map (nearest rows (c.wanted rows.length))
    let farthest := (near.map fun es => es.getLast?.map Entry.distance).toArray
    let densities := (near.map (density? farthest)).toArray
    near.zipWith (fun es (far, own) => ⟨factor? densities es own, own, far, es.length⟩)
      (farthest.toList.zip densities.toList)

def Settings.batchStandings (c : Settings) (scaling : Scaling) (records : List Record) :
    Except Fault (List Standing) := do
  c.check
  return c.standings (scaledFeatures records scaling).rows.toList

def Settings.score (c : Settings) (factor : Float) : Float :=
  Binary64.clamp (factor / c.scoreScale) 0 1

def Settings.finding? (c : Settings) (bands : Bands) (i : Nat) (s : Standing) : Option Finding := do
  let factor ← s.factor
  if factor ≤ c.threshold then none
  else
    return .of bands .density i (c.score factor)
      (.localOutlier factor (s.density.getD 0) s.neighbors)

def Settings.detect (c : Settings) (scaling : Scaling) (bands : Bands) (records : List Record) :
    Outcome :=
  match c.batchStandings scaling records with
  | .error fault => .failed fault
  | .ok standings => .found (standings.zipIdx.filterMap fun (s, i) => c.finding? bands i s)

def detector (c : Settings) (scaling : Scaling) (bands : Bands) : Detector :=
  .ofMethod .density (c.detect scaling bands)

end LedgerWatch.Density
