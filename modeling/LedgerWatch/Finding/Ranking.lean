import LedgerWatch.Finding.Basic

namespace LedgerWatch.Ranking

def sameSubject (f g : Finding) : Bool := f.record == g.record && f.method == g.method

def firsts : List Finding → List Finding
  | [] => []
  | f :: fs => f :: (firsts fs).filter fun g => !sameSubject f g

/-- What a score counts for in the order; one that is no number counts least. -/
def weight (score : Float) : Float := if score.isNaN then -Binary64.infinity else score

/-- Whether a finding may stand before another one. -/
def precedes (f g : Finding) : Bool :=
  f.severity.priority < g.severity.priority ||
    (f.severity.priority == g.severity.priority && weight g.score ≤ weight f.score)

def prioritize (fs : List Finding) : List Finding := fs.mergeSort precedes

/-- The first finding for each record and method, the most urgent ones in front. -/
def rank (fs : List Finding) : List Finding := prioritize (firsts fs)

theorem firsts_sublist (fs : List Finding) : (firsts fs).Sublist fs := by
  induction fs with
  | nil => exact .slnil
  | cons f fs ih => exact (List.filter_sublist.trans ih).cons_cons f

theorem prioritize_perm (fs : List Finding) : (prioritize fs).Perm fs :=
  List.mergeSort_perm fs precedes

theorem mem_of_mem_rank {fs : List Finding} {f : Finding} (h : f ∈ rank fs) : f ∈ fs :=
  (firsts_sublist fs).subset ((prioritize_perm (firsts fs)).mem_iff.1 h)

end LedgerWatch.Ranking
