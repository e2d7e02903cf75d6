import LedgerWatch.Proofs.Insertion.Inert
import LedgerWatch.Proofs.Isolation.Findings

namespace LedgerWatch.Isolation

section Trees

variable {t t' : Table} {p : Nat → Nat} {σ : Type}

theorem observed_map (hwidth : t'.width = t.width) (hcell : ∀ i j, t'.cell (p i) j = t.cell i j)
    (rows : List Nat) : observed t' (rows.map p) = observed t rows := by
  simp only [observed, hwidth, List.any_map, Function.comp_def, hcell]

theorem presentValues_map (hcell : ∀ i j, t'.cell (p i) j = t.cell i j) (rows : List Nat)
    (feature : Nat) : presentValues t' (rows.map p) feature = presentValues t rows feature := by
  simp only [presentValues, List.map_map, Function.comp_def, hcell]

/-- The type of a draw tells how many features there are, so the list of them cannot be rewritten
beneath it; it has to change in both places at once. -/
theorem index_congr (draws : Random.Draws σ) {xs ys : List Nat} (h : xs = ys)
    (hx : 0 < xs.length) (hy : 0 < ys.length) (s : σ) :
    xs.get (draws.index xs.length hx s).1 = ys.get (draws.index ys.length hy s).1 ∧
      (draws.index xs.length hx s).2 = (draws.index ys.length hy s).2 := by
  subst h
  exact ⟨rfl, rfl⟩

/-- A tree depends on the cells of its rows, and not on where the rows stand. -/
theorem grow_map (draws : Random.Draws σ) (hwidth : t'.width = t.width)
    (hcell : ∀ i j, t'.cell (p i) j = t.cell i j) (depth : Nat) (rows : List Nat) (s : σ) :
    grow draws t' depth (rows.map p) s = grow draws t depth rows s := by
  induction depth generalizing rows s with
  | zero => simp only [grow, List.length_map]
  | succ depth ih =>
    -- the same features are observed, so the same one of them is drawn
    have hobserved := observed_map hwidth hcell rows
    have hpick : ∀ h : 0 < (observed t' (rows.map p)).length,
        (observed t' (rows.map p))[(draws.index (observed t' (rows.map p)).length h s).1] =
          (observed t rows)[(draws.index (observed t rows).length (hobserved ▸ h) s).1] :=
      fun h => (index_congr draws hobserved h (hobserved ▸ h) s).1
    have hrest := fun h => (index_congr draws hobserved h (hobserved ▸ h) s).2
    unfold grow
    simp only [hpick, hrest]
    simp only [hobserved, List.length_map, presentValues_map hcell,
      List.partition_eq_filter_filter, List.filter_map, Function.comp_def, hcell, ih]

end Trees

variable {k : Nat} {t t' : Table}

theorem scorable_blankAt (h : BlankAt k t t') : scorable t' = (scorable t).map (past k) := by
  have hrange := Inserted.range h.le_height
  rw [scorable, h.height, hrange.filter h.blank_row.any_eq_false, List.filter_map, scorable]
  simp only [Function.comp_def, h.row_past]

theorem build?_blankAt (h : BlankAt k t t') {σ : Type} (draws : Random.Draws σ) (rows : List Nat)
    (depth maxDepth : Nat) (s : σ) :
    build? draws t' (rows.map (past k)) depth maxDepth s =
      build? draws t rows depth maxDepth s := by
  have hall : (rows.map (past k)).all (· < t'.height) = rows.all (· < t.height) := by
    simp only [List.all_map, Function.comp_def, h.height, past_lt_iff h.le_height]
  have hlooks : looksUp t' (rows.map (past k)) depth maxDepth = looksUp t rows depth maxDepth := by
    simp only [looksUp, List.length_map, h.width]
  rw [build?, hlooks, hall, grow_map draws h.width h.cell_past, build?]

theorem plant?_blankAt (h : BlankAt k t t') (rows : List Nat) (size : Nat) (seed : UInt64) :
    plant? t' (rows.map (past k)) size seed = plant? t rows size seed := by
  have hlookup : ∀ i : Nat, (rows.map (past k)).toArray[i]? = (rows.toArray[i]?).map (past k) := by
    intro i
    simp only [List.getElem?_toArray, List.getElem?_map]
  unfold plant?
  simp only [List.length_map, hlookup, Lists.mapM_map_option, bind, Option.bind_map,
    Function.comp_def, build?_blankAt h]

theorem forest?_blankAt (h : BlankAt k t t') (c : Settings) (seed : UInt64) (rows : List Nat) :
    c.forest? seed t' (rows.map (past k)) = c.forest? seed t rows := by
  simp only [Settings.forest?, Settings.plantAll?, plant?_blankAt h, List.length_map]

/-- The blank row has no score, and all other scores stay what they were. -/
theorem scores?_blankAt (h : BlankAt k t t') {c : Settings} {seed : UInt64}
    {scores : List (Option Float)} (hs : c.scores? seed t = .ok scores) :
    ∃ scores', c.scores? seed t' = .ok scores' ∧ Inserted k none scores scores' := by
  obtain ⟨row, hblank, hrows⟩ := h.rows
  have hlen : (scorable t').length = (scorable t).length := by
    rw [scorable_blankAt h, List.length_map]
  rcases scores?_eq_ok hs with ⟨hfew, rfl⟩ | ⟨hmany, trees, htrees, hscores⟩
  · have hnone := hrows.map fun _ => (none : Option Float)
    rw [List.map_const', List.map_const'] at hnone
    exact ⟨_, scores?_of_few (hlen ▸ hfew) c seed, by simpa [Table.height] using hnone⟩
  · -- the same trees grow, so only the blank row is left to look at
    rw [← forest?_blankAt h, ← scorable_blankAt h] at htrees
    have hrow : scoreWith? trees (searchCost (c.sampleSize (scorable t).length)) row =
        some none := by
      rw [scoreWith?, hblank.any_eq_false, if_neg Bool.false_ne_true]
    obtain ⟨scores', hscores', hinserted⟩ := hrows.mapM hrow hscores
    refine ⟨scores', ?_, hinserted⟩
    rw [scores?_of_forest? (hlen ▸ hmany) htrees, hlen]
    exact Crash.unlessFound_eq_ok.2 hscores'

theorem candidates_inserted {scores scores' : List (Option Float)}
    (h : Inserted k none scores scores') (threshold : Float) :
    candidates threshold scores' =
      (candidates threshold scores).map fun p => (past k p.1, p.2) := by
  have hscored : (scores'.zipIdx.filterMap fun p => p.1.map fun score => (p.2, score)) =
      (scores.zipIdx.filterMap fun p => p.1.map fun score => (p.2, score)).map
        fun p => (past k p.1, p.2) := by
    apply h.filterMap_zipIdx_map rfl
    intro score i
    cases score <;> rfl
  simp only [candidates]
  rw [hscored, List.filter_map]
  refine (List.map_mergeSort ?_).symm
  intro p _ q _
  rfl

theorem flagged_inserted {scores scores' : List (Option Float)}
    (h : Inserted k none scores scores') (c : Settings) :
    c.flagged scores' = (c.flagged scores).map fun p => (past k p.1, p.2) := by
  rw [Settings.flagged, h.countP rfl, candidates_inserted h, ← List.map_take, Settings.flagged]

theorem hasFeature_of_isInert {r : Record} (hr : r.IsInert) : r.hasFeature = false := by
  rw [Record.hasFeature, List.any_eq_false]
  intro f _
  cases f with
  | amount => exact Bool.eq_false_iff.1 (congrArg Option.isSome hr.amount)
  | fraudScore => exact Bool.eq_false_iff.1 (congrArg Option.isSome hr.fraudScore)
  | balance => exact Bool.eq_false_iff.1 (congrArg Option.isSome hr.balance)

theorem overloaded_inserted {r : Record} (hr : r.IsInert) (c : Settings)
    (before after : List Record) :
    c.Overloaded (before ++ r :: after) ↔ c.Overloaded (before ++ after) := by
  simp only [Settings.Overloaded, List.countP_append, List.countP_cons, hasFeature_of_isInert hr,
    Bool.false_eq_true, if_false, Nat.add_zero]

theorem detect_inserted {c : Settings} (hc : c.check = .ok ()) (scaling : Scaling) (bands : Bands)
    (entropy : UInt64) {r : Record} (hr : r.IsInert) (before after : List Record) :
    c.detect scaling bands entropy (before ++ r :: after) =
      (c.detect scaling bands entropy (before ++ after)).reindex (past before.length) := by
  by_cases hload : c.Overloaded (before ++ after)
  · rw [detect_of_overloaded hc hload,
      detect_of_overloaded hc ((overloaded_inserted hr c before after).2 hload), Outcome.reindex]
  · have hblank := blankAt_scaledFeatures hr before after scaling
    obtain ⟨scores, hs⟩ := exists_scores hload scaling entropy
    obtain ⟨scores', hs', hinserted⟩ := scores?_blankAt hblank hs
    rw [detect_eq hc hs, detect_eq hc hs', flagged_inserted hinserted,
      hinserted.countP (p := Option.isSome) rfl, Outcome.reindex, List.map_map, List.map_map]
    rfl

end LedgerWatch.Isolation
