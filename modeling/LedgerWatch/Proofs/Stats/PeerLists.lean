import LedgerWatch.Stats.Peers

namespace LedgerWatch.Stats

variable {α : Type} [Quantity α]

theorem length_momentsBefore (m : Moments α) (xs : List α) :
    (momentsBefore m xs).length = xs.length := by
  induction xs generalizing m with
  | nil => rfl
  | cons x xs ih => rw [momentsBefore, List.length_cons, ih, List.length_cons]

theorem length_momentsBehind (xs : List α) : (momentsBehind xs).2.length = xs.length := by
  induction xs with
  | nil => rfl
  | cons x xs ih =>
    simp only [momentsBehind, List.length_cons]
    rw [ih]

theorem length_peers (xs : List α) : (peers xs).length = xs.length := by
  rw [peers, List.length_zipWith, length_momentsBefore, length_momentsBehind, Nat.min_self]

/-- The moments of all members but one, joined from those in front of it and those behind it. -/
def peerMoments (xs : List α) (i : Nat) : Moments α :=
  ((xs.take i).foldl Moments.push .empty).merge (momentsBehind (xs.drop (i + 1))).1

theorem getElem?_momentsBefore (m : Moments α) {xs : List α} {i : Nat} (hi : i < xs.length) :
    (momentsBefore m xs)[i]? = some ((xs.take i).foldl Moments.push m) := by
  induction xs generalizing m i with
  | nil => cases hi
  | cons x xs ih =>
    cases i with
    | zero => rfl
    | succ i => exact ih (m.push x) (Nat.lt_of_succ_lt_succ hi)

theorem getElem?_momentsBehind {xs : List α} {i : Nat} (hi : i < xs.length) :
    (momentsBehind xs).2[i]? = some (momentsBehind (xs.drop (i + 1))).1 := by
  induction xs generalizing i with
  | nil => cases hi
  | cons x xs ih =>
    cases i with
    | zero => rfl
    | succ i => exact ih (Nat.lt_of_succ_lt_succ hi)

theorem getElem?_zipWith_moments {xs : List α} {i : Nat} (hi : i < xs.length) :
    (List.zipWith Moments.merge (momentsBefore .empty xs) (momentsBehind xs).2)[i]? =
      some (peerMoments xs i) := by
  rw [List.getElem?_zipWith, getElem?_momentsBefore _ hi, getElem?_momentsBehind hi]
  rfl

theorem getElem?_peers {xs : List α} {i : Nat} (hi : i < xs.length) :
    (peers xs)[i]? = some (peerMoments xs i).summary := by
  rw [peers, List.getElem?_zipWith, getElem?_momentsBefore _ hi, getElem?_momentsBehind hi]
  rfl

/-- What is known of the peers of a member does not depend on the member. -/
theorem peerMoments_congr {xs ys : List α} {i : Nat} (h : ∀ j, j ≠ i → xs[j]? = ys[j]?) :
    peerMoments xs i = peerMoments ys i := by
  have htake : xs.take i = ys.take i := by
    apply List.ext_getElem?
    intro j
    rw [List.getElem?_take, List.getElem?_take]
    split
    · exact h j (by omega)
    · rfl
  have hdrop : xs.drop (i + 1) = ys.drop (i + 1) := by
    apply List.ext_getElem?
    intro j
    rw [List.getElem?_drop, List.getElem?_drop]
    exact h _ (by omega)
  rw [peerMoments, htake, hdrop, peerMoments]

namespace PeerStats

variable {xs : List α} {p : PeerStats α}

theorem exists_of_length (hlen : 3 ≤ xs.length) : ∃ p, ofValues? xs = some p :=
  ⟨_, if_neg (Nat.not_lt.2 hlen)⟩

theorem eq_of_ofValues? (h : ofValues? xs = some p) :
    p = ⟨xs, Stats.peers xs, (Stats.peers xs).map (baseline? (summarize? xs))⟩ := by
  unfold ofValues? at h
  split at h
  · cases h
  · exact (Option.some.inj h).symm

theorem length_peers_of_ofValues? (h : ofValues? xs = some p) : p.peers.length = xs.length := by
  rw [eq_of_ofValues? h]
  exact length_peers xs

theorem length_baselines_of_ofValues? (h : ofValues? xs = some p) :
    p.baselines.length = xs.length := by
  rw [eq_of_ofValues? h]
  exact (List.length_map _).trans (length_peers xs)

theorem peer?_eq (h : ofValues? xs = some p) {i : Nat} (hi : i < xs.length) :
    p.peer? i = some (peerMoments xs i).summary := by
  rw [eq_of_ofValues? h]
  exact getElem?_peers hi

theorem baselineAt?_eq (h : ofValues? xs = some p) {i : Nat} (hi : i < xs.length) :
    p.baselineAt? i = baseline? (summarize? xs) (peerMoments xs i).summary := by
  rw [eq_of_ofValues? h, baselineAt?, List.getElem?_map, getElem?_peers hi]
  rfl

/-- Outside of the list there is nothing to judge. -/
theorem baselineAt?_of_length_le (h : ofValues? xs = some p) {i : Nat} (hi : xs.length ≤ i) :
    p.baselineAt? i = none := by
  have hlen := length_baselines_of_ofValues? h
  rw [baselineAt?, List.getElem?_eq_none (hlen ▸ hi)]
  rfl

theorem zScoreAt?_eq (h : ofValues? xs = some p) (i : Nat) :
    p.zScoreAt? i = (p.baselineAt? i).bind fun s => xs[i]?.bind s.zScore? := by
  rw [eq_of_ofValues? h]
  rfl

end PeerStats

end LedgerWatch.Stats
