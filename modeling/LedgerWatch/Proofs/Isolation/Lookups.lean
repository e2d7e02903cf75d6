import LedgerWatch.Isolation.Forest
import LedgerWatch.Proofs.Features
import LedgerWatch.Proofs.Isolation.Growth
import LedgerWatch.Proofs.Lists
import LedgerWatch.Proofs.Random.SampleRange

namespace LedgerWatch.Isolation

variable {t : Table}

theorem lt_height_of_mem_scorable {i : Nat} (h : i ∈ scorable t) : i < t.height :=
  List.mem_range.1 (List.mem_filter.1 h).1

theorem build?_eq {σ : Type} (draws : Random.Draws σ) {rows : List Nat}
    (h : ∀ i ∈ rows, i < t.height) (depth maxDepth : Nat) (s : σ) :
    build? draws t rows depth maxDepth s = some (grow draws t (maxDepth - depth) rows s) := by
  have hall : rows.all (· < t.height) = true := by simpa using h
  simp [build?, hall]

theorem isSome_build? {σ : Type} (draws : Random.Draws σ) {rows : List Nat}
    (h : ∀ i ∈ rows, i < t.height) (depth maxDepth : Nat) (s : σ) :
    (build? draws t rows depth maxDepth s).isSome := by
  rw [build?_eq draws h]
  rfl

theorem grow_of_build? {σ : Type} {draws : Random.Draws σ} {rows : List Nat}
    {depth maxDepth : Nat} {s : σ} {grown : Tree × σ}
    (h : build? draws t rows depth maxDepth s = some grown) :
    grow draws t (maxDepth - depth) rows s = grown := by
  unfold build? at h
  split at h
  · cases h
  · exact Option.some.inj h

theorem within_of_build? {σ : Type} {draws : Random.Draws σ} {rows : List Nat}
    {depth maxDepth : Nat} {s s' : σ} {tree : Tree}
    (h : build? draws t rows depth maxDepth s = some (tree, s')) : tree.Within t.width := by
  have hg := within_grow draws t (maxDepth - depth) rows s
  rw [grow_of_build? h] at hg
  exact hg

/-- A tree is planted on a sample of rows, and a sample stays inside of the rows. -/
theorem isSome_plant? {rows : List Nat} (h : ∀ i ∈ rows, i < t.height) {size : Nat}
    (hsize : size ≤ rows.length) (seed : UInt64) : (plant? t rows size seed).isSome := by
  -- a pick is a position among the rows, and what stands there is a row of the table
  have hpicks : (((Random.Stream.ofSeed seed).sample rows.length size).1.mapM
      fun i => rows.toArray[i]?).isSome := by
    rw [Lists.isSome_mapM_iff]
    intro i hi
    simpa using Random.Stream.lt_of_mem_sample hsize hi
  obtain ⟨sample, hsample⟩ := Option.isSome_iff_exists.1 hpicks
  have hin : ∀ i ∈ sample, i < t.height := by
    intro i hi
    obtain ⟨j, -, hj⟩ := Lists.exists_of_mem_mapM hsample hi
    exact h i (List.mem_of_getElem? (by simpa using hj))
  obtain ⟨grown, hgrown⟩ := Option.isSome_iff_exists.1
    (isSome_build? Random.Stream.draws hin 0 (depthLimit size)
      ((Random.Stream.ofSeed seed).sample rows.length size).2)
  simp only [plant?, bind, hsample, Option.bind_some, hgrown]
  rfl

theorem within_of_plant? {rows : List Nat} {size : Nat} {seed : UInt64} {tree : Tree}
    (h : plant? t rows size seed = some tree) : tree.Within t.width := by
  simp only [plant?, bind, Option.bind_eq_some_iff, pure, Option.some.injEq] at h
  obtain ⟨sample, -, grown, hgrown, rfl⟩ := h
  exact within_of_build? hgrown

variable (c : Settings)

theorem sampleSize_le (rows : Nat) : c.sampleSize rows ≤ rows := Nat.min_le_right _ _

theorem isSome_plantAll? (seed : UInt64) {rows : List Nat} (h : ∀ i ∈ rows, i < t.height) :
    (c.plantAll? seed t rows).isSome := by
  unfold Settings.plantAll?
  rw [Lists.isSome_mapM_iff]
  intro i _
  exact isSome_plant? h (sampleSize_le c _) _

variable {c}

theorem forest?_of_overCapacity (h : c.OverCapacity) (seed : UInt64) (t : Table)
    (rows : List Nat) : c.forest? seed t rows = .error .overCapacity :=
  if_pos h

theorem forest?_of_plantAll? (h : ¬c.OverCapacity) {seed : UInt64} {rows : List Nat}
    {trees : List Tree} (htrees : c.plantAll? seed t rows = some trees) :
    c.forest? seed t rows = .ok trees :=
  (if_neg h).trans (Crash.unlessFound_eq_ok.2 htrees)

theorem exists_forest? (h : ¬c.OverCapacity) (seed : UInt64) {rows : List Nat}
    (hrows : ∀ i ∈ rows, i < t.height) : ∃ trees, c.forest? seed t rows = .ok trees := by
  obtain ⟨trees, htrees⟩ := Option.isSome_iff_exists.1 (isSome_plantAll? c seed hrows)
  exact ⟨trees, forest?_of_plantAll? h htrees⟩

theorem plantAll?_of_forest? {seed : UInt64} {rows : List Nat} {trees : List Tree}
    (h : c.forest? seed t rows = .ok trees) :
    ¬c.OverCapacity ∧ c.plantAll? seed t rows = some trees := by
  unfold Settings.forest? at h
  split at h
  · cases h
  · rename_i hroom
    exact ⟨hroom, Crash.unlessFound_eq_ok.1 h⟩

theorem within_of_forest? {seed : UInt64} {rows : List Nat} {trees : List Tree}
    (h : c.forest? seed t rows = .ok trees) {tree : Tree} (htree : tree ∈ trees) :
    tree.Within t.width := by
  obtain ⟨i, -, hi⟩ := Lists.exists_of_mem_mapM (plantAll?_of_forest? h).2 htree
  exact within_of_plant? hi

theorem isSome_meanPath? {trees : List Tree} {sample : List Float}
    (h : ∀ tree ∈ trees, tree.Within sample.length) : (meanPath? trees sample).isSome := by
  have hpaths : (trees.mapM fun tree : Tree => tree.pathLength? sample).isSome := by
    rw [Lists.isSome_mapM_iff]
    intro tree htree
    rw [Tree.pathLength?, Option.isSome_map]
    exact (h tree htree).isSome_walk? rfl
  obtain ⟨paths, hp⟩ := Option.isSome_iff_exists.1 hpaths
  simp only [meanPath?, bind, hp, Option.bind_some]
  rfl

theorem isSome_scoreWith? {trees : List Tree} {sample : List Float}
    (h : ∀ tree ∈ trees, tree.Within sample.length) (cost : Float) :
    (scoreWith? trees cost sample).isSome := by
  unfold scoreWith?
  split
  · obtain ⟨path, hpath⟩ := Option.isSome_iff_exists.1 (isSome_meanPath? h)
    simp [hpath]
  · rfl

theorem scores?_of_few (h : (scorable t).length < 2) (c : Settings) (seed : UInt64) :
    c.scores? seed t = .ok (List.replicate t.height none) :=
  if_pos h

theorem scores?_of_overCapacity (h : c.OverCapacity) (hmany : 2 ≤ (scorable t).length)
    (seed : UInt64) : c.scores? seed t = .error .overCapacity := by
  rw [Settings.scores?, if_neg (Nat.not_lt.2 hmany), forest?_of_overCapacity h]
  rfl

theorem scores?_of_forest? {seed : UInt64} {trees : List Tree} (hmany : 2 ≤ (scorable t).length)
    (h : c.forest? seed t (scorable t) = .ok trees) :
    c.scores? seed t = Crash.unlessFound (t.rows.toList.mapM
      (scoreWith? trees (searchCost (c.sampleSize (scorable t).length)))) := by
  rw [Settings.scores?, if_neg (Nat.not_lt.2 hmany), h]
  rfl

/-- No look-up of a forest fails on a regular table, so only the number of trees can keep it from
growing. -/
theorem exists_scores? (h : ¬c.OverCapacity) (seed : UInt64) (ht : t.Regular) :
    ∃ scores, c.scores? seed t = .ok scores := by
  by_cases hfew : (scorable t).length < 2
  · exact ⟨_, scores?_of_few hfew c seed⟩
  · obtain ⟨trees, htrees⟩ := exists_forest? h seed fun _ => lt_height_of_mem_scorable (t := t)
    have hscored : (t.rows.toList.mapM
        (scoreWith? trees (searchCost (c.sampleSize (scorable t).length)))).isSome := by
      rw [Lists.isSome_mapM_iff]
      intro sample hsample
      apply isSome_scoreWith?
      intro tree htree
      rw [ht sample hsample]
      exact within_of_forest? htrees htree
    obtain ⟨scores, hscores⟩ := Option.isSome_iff_exists.1 hscored
    refine ⟨scores, ?_⟩
    rw [scores?_of_forest? (Nat.not_lt.1 hfew) htrees]
    exact Crash.unlessFound_eq_ok.2 hscores

/-- Where scores come from: there are too few rows, or a forest has grown. -/
theorem scores?_eq_ok {seed : UInt64} {scores : List (Option Float)}
    (h : c.scores? seed t = .ok scores) :
    (scorable t).length < 2 ∧ scores = List.replicate t.height none ∨
      2 ≤ (scorable t).length ∧ ∃ trees, c.forest? seed t (scorable t) = .ok trees ∧
        t.rows.toList.mapM (scoreWith? trees (searchCost (c.sampleSize (scorable t).length))) =
          some scores := by
  by_cases hfew : (scorable t).length < 2
  · rw [scores?_of_few hfew] at h
    exact .inl ⟨hfew, (Except.ok.inj h).symm⟩
  · have hmany := Nat.not_lt.1 hfew
    refine .inr ⟨hmany, ?_⟩
    cases htrees : c.forest? seed t (scorable t) with
    | error crash =>
      rw [Settings.scores?, if_neg hfew, htrees] at h
      cases h
    | ok trees =>
      rw [scores?_of_forest? hmany htrees] at h
      exact ⟨trees, rfl, Crash.unlessFound_eq_ok.1 h⟩

end LedgerWatch.Isolation
