import LedgerWatch.Stats.Summary

/-!
Leave-one-out statistics. Each member of a group is judged against its peers, the group without
it, so that a large value does not hide behind the spread it makes. The moments of the peers are
joined from those before and those behind the member; nothing is subtracted from a total.
-/

namespace LedgerWatch.Stats

variable {α : Type} [Quantity α]

/-- Count, mean and sum of squared deviations of a sample. -/
structure Moments (α : Type) where
  count : Nat
  mean : α
  m2 : α

namespace Moments

@[specialize] def empty : Moments α := ⟨0, Quantity.ofNat 0, Quantity.ofNat 0⟩

@[specialize] def push (m : Moments α) (value : α) : Moments α :=
  let count := m.count + 1
  let delta := value - m.mean
  let mean := m.mean + delta / Quantity.ofNat count
  ⟨count, mean, m.m2 + delta * (value - mean)⟩

/-- The moments of two samples together. -/
@[specialize] def merge (a b : Moments α) : Moments α :=
  if a.count = 0 then b
  else if b.count = 0 then a
  else
    let count := a.count + b.count
    let na : α := Quantity.ofNat a.count
    let nb : α := Quantity.ofNat b.count
    let n : α := Quantity.ofNat count
    let delta := b.mean - a.mean
    ⟨count, a.mean + delta * nb / n, a.m2 + b.m2 + delta * delta * na * nb / n⟩

@[specialize] def summary (m : Moments α) : Summary α :=
  ⟨m.count, m.mean,
    Quantity.sqrt (Quantity.larger m.m2 (Quantity.ofNat 0) / Quantity.ofNat m.count)⟩

end Moments

/-- For each member the moments of what stands before it, behind those given. -/
@[specialize] def momentsBefore (m : Moments α) : List α → List (Moments α)
  | [] => []
  | x :: xs => m :: momentsBefore (m.push x) xs

/-- The moments of a list, pushed from its end, and for each member those of what follows it. -/
@[specialize] def momentsBehind : List α → Moments α × List (Moments α)
  | [] => (.empty, [])
  | x :: xs =>
    let (m, ms) := momentsBehind xs
    (m.push x, m :: ms)

@[specialize] def peers (xs : List α) : List (Summary α) :=
  List.zipWith (fun a b => (a.merge b).summary) (momentsBefore .empty xs) (momentsBehind xs).2

/-- What a member is judged against: its peers, or the whole group when the peers have no spread. -/
@[specialize] def baseline? (group : Option (Summary α)) (peer : Summary α) : Option (Summary α) :=
  if peer.isFlat then group.filter fun g => !g.isFlat else some peer

structure PeerStats (α : Type) where
  values : List α
  peers : List (Summary α)
  baselines : List (Option (Summary α))

/-- There are no peers to speak of in a group of fewer than three. -/
@[specialize] def PeerStats.ofValues? (values : List α) : Option (PeerStats α) :=
  if values.length < 3 then none
  else
    let group := summarize? values
    let peers := Stats.peers values
    some ⟨values, peers, peers.map (baseline? group)⟩

namespace PeerStats

@[specialize] def peer? (p : PeerStats α) (i : Nat) : Option (Summary α) := p.peers[i]?

@[specialize] def baselineAt? (p : PeerStats α) (i : Nat) : Option (Summary α) :=
  (p.baselines[i]?).join

@[specialize] def zScoreAt? (p : PeerStats α) (i : Nat) : Option α := do
  let baseline ← p.baselineAt? i
  let value ← p.values[i]?
  baseline.zScore? value

end PeerStats

end LedgerWatch.Stats
