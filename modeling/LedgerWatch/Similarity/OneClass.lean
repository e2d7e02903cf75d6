import LedgerWatch.Stats.Distance
import LedgerWatch.Number.Elementary
import LedgerWatch.Detector

namespace LedgerWatch.Similarity

structure Settings where
  nu : Float := 0.1
  /-- How fast similarity falls with the squared distance. -/
  gamma : Float := 0.5

def Settings.check (c : Settings) : Except Fault Unit := do
  Fault.require (0 < c.nu && c.nu ≤ 1) (.ofNumber "one_class.nu" c.nu "must be in (0, 1]")
  Fault.require (0 < c.gamma) (.ofNumber "one_class.gamma" c.gamma "must be positive")

/-- `exp (-gamma * d)` for a squared distance `d`. -/
def similarity (gamma squaredDistance : Float) : Float :=
  Elementary.decay (gamma * squaredDistance)

/-- The squared distances of row `i` to the rows it can be compared with, in row order. -/
def squaredDistances (rows : List (List Float)) (i : Nat) : List Float :=
  let point := (rows[i]?).getD []
  rows.zipIdx.filterMap fun (row, j) =>
    if j = i then none else Stats.squaredDistance? point row

/-- The mean similarity of row `i` to the rows it can be compared with. -/
def mean? (gamma : Float) (rows : List (List Float)) (i : Nat) : Option Float :=
  let ds := squaredDistances rows i
  if ds.isEmpty then none
  else some (ds.foldl (fun total d => total + similarity gamma d) 0 / Float.ofNat ds.length)

def Settings.batchMeans (c : Settings) (scaling : Scaling) (records : List Record) :
    Except Fault (List (Option Float)) := do
  c.check
  let rows := (scaledFeatures records scaling).rows.toList
  return (List.range rows.length).map (mean? c.gamma rows)

def Settings.finding? (c : Settings) (bands : Bands) (i : Nat) (mean : Option Float) :
    Option Finding := do
  let mean ← mean
  let decision := mean - c.nu
  if decision < 0 then return .of bands .similarity i decision.abs (.similarity mean decision)
  else none

def Settings.detect (c : Settings) (scaling : Scaling) (bands : Bands) (records : List Record) :
    Outcome :=
  match c.batchMeans scaling records with
  | .error fault => .failed fault
  | .ok means => .found (means.zipIdx.filterMap fun (m, i) => c.finding? bands i m)

def detector (c : Settings) (scaling : Scaling) (bands : Bands) : Detector :=
  .ofMethod .similarity (c.detect scaling bands)

end LedgerWatch.Similarity
