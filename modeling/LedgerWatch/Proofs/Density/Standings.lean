import LedgerWatch.Proofs.Density.Findings
import LedgerWatch.Proofs.Density.Nearest
import LedgerWatch.Proofs.Presence
import LedgerWatch.Proofs.Similarity.Findings

namespace LedgerWatch.Density

open Binary64

section Neighborhoods

variable {c : Settings} {rows : List (List Float)} {i : ℕ} {e : Entry}

def Settings.neighborhood (c : Settings) (rows : List (List Float)) (i : ℕ) : List Entry :=
  nearest rows (c.wanted rows.length) i

theorem exists_comparable_back (hi : i < rows.length) (he : e ∈ comparable rows i) :
    ∃ e' ∈ comparable rows e.row, e'.row = i := by
  obtain ⟨hne, row, hrow, hd⟩ := mem_comparable_iff.1 he
  have hpoint : rows[i]? = some rows[i] := List.getElem?_eq_getElem hi
  rw [hpoint, Option.getD_some] at hd
  have hback : (Stats.distance? row rows[i]).isSome := by
    rw [Stats.isSome_distance?, Stats.overlap_comm, ← Stats.isSome_distance?, hd]
    rfl
  obtain ⟨d, hd'⟩ := Option.isSome_iff_exists.1 hback
  refine ⟨⟨d, i⟩, mem_comparable_iff.2 ⟨hne.symm, rows[i], hpoint, ?_⟩, rfl⟩
  rw [hrow]
  exact hd'

theorem pos_neighbors_of_check (hc : c.check = .ok ()) : 0 < c.neighbors.toNat := by
  rw [Nat.pos_iff_ne_zero]
  intro hzero
  have hnone : c.neighbors = 0 := UInt64.toNat_inj.1 hzero
  rw [Settings.check, hnone] at hc
  cases hc

theorem length_neighborhood (hrows : ∀ row ∈ rows, Stats.Measured row) (c : Settings) (i : ℕ) :
    (c.neighborhood rows i).length = min (c.wanted rows.length) (comparableCount rows i) := by
  rw [← length_comparable]
  exact (isNearest_nearest hrows _ i).length

theorem length_neighborhood_pos_iff (hc : c.check = .ok ())
    (hrows : ∀ row ∈ rows, Stats.Measured row) (hi : i < rows.length) :
    0 < (c.neighborhood rows i).length ↔ 0 < comparableCount rows i := by
  have hpos := pos_neighbors_of_check hc
  have hle := length_comparable_le hi
  rw [length_comparable] at hle
  rw [length_neighborhood hrows, Settings.wanted]
  omega

theorem neighborhood_of_neighbor_ne_nil (hc : c.check = .ok ())
    (hrows : ∀ row ∈ rows, Stats.Measured row) (hi : i < rows.length)
    (he : e ∈ c.neighborhood rows i) : c.neighborhood rows e.row ≠ [] := by
  obtain ⟨hlt, -⟩ := lt_of_mem_nearest he
  obtain ⟨e', he', -⟩ := exists_comparable_back hi (mem_comparable_of_mem_nearest he)
  rw [← List.length_pos_iff, length_neighborhood_pos_iff hc hrows hlt, ← length_comparable]
  exact List.length_pos_of_mem he'

end Neighborhoods

section Standings

variable {c : Settings} {rows : List (List Float)} {i : ℕ}

theorem isSome_farthestOf (es : List Entry) : (farthestOf es).isSome ↔ es ≠ [] := by
  rw [farthestOf, Option.isSome_map, List.getLast?_isSome]

theorem isSome_density? (farthest : Array (Option Float)) (es : List Entry) :
    (density? farthest es).isSome ↔ es ≠ [] := by
  cases es <;> simp [density?]

theorem getElem?_near (hi : i < rows.length) :
    (c.near rows)[i]? = some (c.neighborhood rows i) := by
  simp [Settings.near, Settings.neighborhood, hi]

theorem getElem?_farthest (hi : i < rows.length) :
    (c.farthest rows)[i]? = some (farthestOf (c.neighborhood rows i)) := by
  rw [Settings.farthest, List.getElem?_toArray, List.getElem?_map, getElem?_near hi]
  rfl

theorem getElem?_densities (hi : i < rows.length) :
    (c.densities rows)[i]? = some (density? (c.farthest rows) (c.neighborhood rows i)) := by
  rw [Settings.densities, List.getElem?_toArray, List.getElem?_map, getElem?_near hi]
  rfl

theorem getElem?_standings (hi : i < rows.length) :
    (c.standings rows)[i]? = some (c.standing rows (c.neighborhood rows i)) := by
  rw [standings_eq, List.getElem?_map, getElem?_near hi]
  rfl

/-- The mean density of the neighbors over the density of the record. -/
def quotient (dense : ℕ → Float) (near : List Entry) (own : Float) : Float :=
  meanOf (near.map fun e => dense e.row) / own

/-- A standing in which every neighbor counts with numbers of its own: `far` is the distance of its
farthest neighbor, `dense` its density. -/
structure Known (far dense : ℕ → Float) (standings : List Standing) (near : List Entry)
    (s : Standing) : Prop where
  neighbors : s.neighbors = near.length
  farthest : s.farthest = near.getLast?.map Entry.distance
  neighbor : ∀ e ∈ near, ∃ s', standings[e.row]? = some s' ∧ s'.farthest = some (far e.row) ∧
    s'.density = some (dense e.row)
  density : s.density = if near = [] then none
    else some (1 / (meanOf (near.map fun e => larger (far e.row) e.distance) + reachEpsilon))
  factor : s.factor = s.density.bind fun own =>
    if (quotient dense near own).isFinite then some (quotient dense near own) else none

namespace Known

variable {far dense : ℕ → Float} {standings : List Standing} {near : List Entry} {s : Standing}

theorem isSome_farthest (h : Known far dense standings near s) :
    s.farthest.isSome ↔ 0 < s.neighbors := by
  rw [h.farthest, h.neighbors, List.length_pos_iff]
  exact isSome_farthestOf near

theorem isSome_density (h : Known far dense standings near s) :
    s.density.isSome ↔ 0 < s.neighbors := by
  rw [h.density, h.neighbors, List.length_pos_iff]
  split
  · rename_i hnil
    simp [hnil]
  · rename_i hne
    exact iff_of_true rfl hne

theorem density_of_factor_none (h : Known far dense standings near s) (hnone : s.factor = none) :
    s.density = none ∨
      ∃ own, s.density = some own ∧ (quotient dense near own).isFinite = false := by
  have hfactor := h.factor
  cases hown : s.density with
  | none => exact .inl rfl
  | some own =>
    rw [hnone, hown, Option.bind_some] at hfactor
    split at hfactor
    · cases hfactor
    · rename_i hnot
      exact .inr ⟨own, rfl, Bool.eq_false_iff.2 hnot⟩

end Known

def farOf (standings : List Standing) (j : ℕ) : Float :=
  ((standings[j]?).bind Standing.farthest).getD 0

def denseOf (standings : List Standing) (j : ℕ) : Float :=
  ((standings[j]?).bind Standing.density).getD 0

theorem farthestOf_eq_some (hi : i < rows.length) (hne : c.neighborhood rows i ≠ []) :
    farthestOf (c.neighborhood rows i) = some (farOf (c.standings rows) i) := by
  obtain ⟨far, hfar⟩ := Option.isSome_iff_exists.1 ((isSome_farthestOf _).2 hne)
  rw [farOf, getElem?_standings hi, Option.bind_some, Settings.standing, hfar, Option.getD_some]

theorem density?_eq_some (hi : i < rows.length) (hne : c.neighborhood rows i ≠ []) :
    density? (c.farthest rows) (c.neighborhood rows i) =
      some (denseOf (c.standings rows) i) := by
  obtain ⟨dense, hdense⟩ := Option.isSome_iff_exists.1
    ((isSome_density? (c.farthest rows) _).2 hne)
  rw [denseOf, getElem?_standings hi, Option.bind_some, Settings.standing, hdense,
    Option.getD_some]

theorem known_standing (hc : c.check = .ok ()) (hrows : ∀ row ∈ rows, Stats.Measured row)
    (hi : i < rows.length) :
    Known (farOf (c.standings rows)) (denseOf (c.standings rows)) (c.standings rows)
      (c.neighborhood rows i) (c.standing rows (c.neighborhood rows i)) := by
  have hlt : ∀ e ∈ c.neighborhood rows i, e.row < rows.length := fun e he =>
    (lt_of_mem_nearest he).1
  have hback : ∀ e ∈ c.neighborhood rows i, c.neighborhood rows e.row ≠ [] := fun e he =>
    neighborhood_of_neighbor_ne_nil hc hrows hi he
  refine ⟨rfl, rfl, ?_, ?_, ?_⟩
  · intro e he
    exact ⟨_, getElem?_standings (hlt e he), farthestOf_eq_some (hlt e he) (hback e he),
      density?_eq_some (hlt e he) (hback e he)⟩
  · have hreach : (c.neighborhood rows i).map (reach (c.farthest rows)) =
        (c.neighborhood rows i).map fun e =>
          larger (farOf (c.standings rows) e.row) e.distance := by
      apply List.map_congr_left
      intro e he
      rw [reach, getElem?_farthest (hlt e he), Option.join_some,
        farthestOf_eq_some (hlt e he) (hback e he)]
    simp only [Settings.standing, density?, List.isEmpty_iff, hreach]
  · have hothers : (c.neighborhood rows i).filterMap
        (fun e => ((c.densities rows)[e.row]?).join) =
        (c.neighborhood rows i).map fun e => denseOf (c.standings rows) e.row := by
      rw [← List.filterMap_eq_map]
      apply List.filterMap_congr
      intro e he
      rw [getElem?_densities (hlt e he), Option.join_some,
        density?_eq_some (hlt e he) (hback e he)]
      rfl
    simp only [Settings.standing, factor?, hothers, quotient]
    cases hown : density? (c.farthest rows) (c.neighborhood rows i) with
    | none => rfl
    | some own =>
      have hne : c.neighborhood rows i ≠ [] := by
        rw [← isSome_density? (c.farthest rows), hown]
        rfl
      simp only [bind, Option.bind_some, List.isEmpty_iff, List.map_eq_nil_iff, if_neg hne]
      rfl

end Standings

section Batches

variable {c : Settings} {c' : Similarity.Settings} {rows : List (List Float)}
  {records : List Record} {i : ℕ} {r : Record}

def sharing (records : List Record) (i : ℕ) (r : Record) : ℕ :=
  records.zipIdx.countP fun (r', j) => j != i && r.sharesFeature r'

theorem comparableCount_eq_sharing
    (hpresence : rows.map Stats.presence = records.map Record.presence)
    (hr : records[i]? = some r) : comparableCount rows i = sharing records i r := by
  obtain ⟨point, hpoint, hsame⟩ : ∃ point, rows[i]? = some point ∧
      Stats.presence point = r.presence := by
    have hi := congrArg (·[i]?) hpresence
    simp only [List.getElem?_map, hr, Option.map_some] at hi
    exact Option.map_eq_some_iff.1 hi
  -- both count the same rows of presence
  have hcount : ∀ ps : List (List Bool), rows.map Stats.presence = ps →
      comparableCount rows i = ps.zipIdx.countP fun (p, j) =>
        j != i && (r.presence.zip p).any fun b => b.1 && b.2 := by
    rintro ps rfl
    rw [comparableCount, hpoint, List.zipIdx_map, List.countP_map]
    simp only [Option.getD_some, Stats.overlap_eq_presence, hsame]
    rfl
  rw [hcount _ hpresence, List.zipIdx_map, List.countP_map, sharing]
  rfl

theorem length_squaredDistances (rows : List (List Float)) (i : ℕ) :
    (Similarity.squaredDistances rows i).length = comparableCount rows i :=
  length_others (fun row _ => Stats.squaredDistance? ((rows[i]?).getD []) row)
    fun row _ => Stats.isSome_squaredDistance? _ row

theorem isSome_mean? (gamma : Float) (rows : List (List Float)) (i : ℕ) :
    (Similarity.mean? gamma rows i).isSome ↔ 0 < comparableCount rows i := by
  rw [← length_squaredDistances, Similarity.mean?]
  cases Similarity.squaredDistances rows i <;> simp

/-- Local outlier factors and similarities look at the same pairs of records, those that have a
feature in common. A record has up to the configured number of neighbors among them, and all that
is missing of its standing is missing for want of one, but for a factor that is not finite. -/
theorem standings_known (hc : c.check = .ok ()) (hc' : c'.check = .ok ()) (scaling : Scaling)
    (records : List Record) :
    ∃ standings means,
      c.batchStandings scaling records = .ok standings ∧
      c'.batchMeans scaling records = .ok means ∧
      standings.length = records.length ∧ means.length = records.length ∧
      ∀ i r, records[i]? = some r →
        let near := c.neighborhood (scaledFeatures records scaling).rows.toList i
        ∃ s mean, standings[i]? = some s ∧ means[i]? = some mean ∧
          s.neighbors = min (min c.neighbors.toNat (records.length - 1)) (sharing records i r) ∧
          (s.farthest.isSome ↔ 0 < s.neighbors) ∧ (s.density.isSome ↔ 0 < s.neighbors) ∧
          (mean.isSome ↔ 0 < s.neighbors) ∧
          Known (farOf standings) (denseOf standings) standings near s ∧
          (s.factor = none → sharing records i r = 0 ∨ ∃ own, s.density = some own ∧
            (quotient (denseOf standings) near own).isFinite = false) := by
  obtain ⟨rows, hrows⟩ : ∃ rows, rows = (scaledFeatures records scaling).rows.toList := ⟨_, rfl⟩
  have hlen : rows.length = records.length := by rw [hrows, height_scaledFeatures]
  have hmeasured : ∀ row ∈ rows, Stats.Measured row :=
    hrows ▸ measured_scaledFeatures records scaling
  refine ⟨c.standings rows, (List.range rows.length).map (Similarity.mean? c'.gamma rows),
    ?_, ?_, ?_, ?_, ?_⟩
  · rw [batchStandings_eq hc, hrows]
  · rw [Similarity.batchMeans_eq hc', hrows]
  · rw [length_standings, hlen]
  · rw [List.length_map, List.length_range, hlen]
  · intro i r hr
    rw [← hrows]
    have hi : i < rows.length := by
      rw [hlen]
      exact (List.getElem?_eq_some_iff.1 hr).1
    have hshared : comparableCount rows i = sharing records i r :=
      comparableCount_eq_sharing (hrows ▸ presence_scaledFeatures records scaling) hr
    have hknown := known_standing hc hmeasured hi
    have hpos := length_neighborhood_pos_iff hc hmeasured hi
    rw [← hknown.neighbors] at hpos
    refine ⟨_, Similarity.mean? c'.gamma rows i, getElem?_standings hi, by simp [hi], ?_,
      hknown.isSome_farthest, hknown.isSome_density, ?_, hknown, ?_⟩
    · rw [hknown.neighbors, length_neighborhood hmeasured, Settings.wanted, hlen, hshared]
    · rw [isSome_mean?, hpos]
    · intro hnone
      refine (hknown.density_of_factor_none hnone).imp_left fun hdensity => ?_
      rw [← hshared]
      by_contra hsome
      have hpresent := hknown.isSome_density.2 (hpos.2 (Nat.pos_of_ne_zero hsome))
      rw [hdensity] at hpresent
      cases hpresent

/-- Two records have a feature in common, and a third one has none in common with them. -/
theorem standings_known_apart :
    let record (field value : String) : Record := ⟨[(field, .string value)]⟩
    let records := [record "amount" "1", record "amount" "3", record "balance" "2"]
    Settings.check {} = .ok () ∧ Similarity.Settings.check {} = .ok () ∧
      ∃ standings means, Settings.batchStandings {} .standard records = .ok standings ∧
        Similarity.Settings.batchMeans {} .standard records = .ok means ∧
        ∃ s s' mean mean', standings[0]? = some s ∧ standings[2]? = some s' ∧
          means[0]? = some mean ∧ means[2]? = some mean' ∧
          s.neighbors = 1 ∧ s.density.isSome ∧ mean.isSome ∧
          s'.neighbors = 0 ∧ ¬s'.density.isSome ∧ ¬mean'.isSome := by
  intro record records
  have hc : Settings.check {} = .ok () := by decide +kernel
  have hc' : Similarity.Settings.check {} = .ok () := by decide +kernel
  obtain ⟨standings, means, hstandings, hmeans, -, -, hall⟩ :=
    standings_known hc hc' .standard records
  obtain ⟨s, mean, hs, hmean, hneighbors, -, hdensity, hsimilar, -⟩ :=
    hall 0 (record "amount" "1") rfl
  obtain ⟨s', mean', hs', hmean', hneighbors', -, hdensity', hsimilar', -⟩ :=
    hall 2 (record "balance" "2") rfl
  have hone : s.neighbors = 1 := hneighbors.trans (by decide +kernel)
  have hnone : s'.neighbors = 0 := hneighbors'.trans (by decide +kernel)
  rw [hone] at hdensity hsimilar
  rw [hnone] at hdensity' hsimilar'
  exact ⟨hc, hc', standings, means, hstandings, hmeans, s, s', mean, mean', hs, hs', hmean,
    hmean', hone, hdensity.2 one_pos, hsimilar.2 one_pos, hnone, by simpa using hdensity',
    by simpa using hsimilar'⟩

end Batches

end LedgerWatch.Density
