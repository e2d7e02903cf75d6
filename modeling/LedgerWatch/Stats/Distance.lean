import LedgerWatch.Number.Binary64

namespace LedgerWatch.Stats

/-- The pairs of coordinates that both points have; the shorter point ends the comparison. -/
def shared (a b : List Float) : List (Float × Float) :=
  (a.zip b).filter fun p => !p.1.isNaN && !p.2.isNaN

def squaredGap (p : Float × Float) : Float := (p.1 - p.2) * (p.1 - p.2)

def squaredDistance? (a b : List Float) : Option Float :=
  let pairs := shared a b
  if pairs = [] then none else some (pairs.foldl (fun total p => total + squaredGap p) 0)

def distance? (a b : List Float) : Option Float := (squaredDistance? a b).map Float.sqrt

end LedgerWatch.Stats
