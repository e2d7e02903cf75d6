import LedgerWatch.Proofs.Contextual.Findings
import LedgerWatch.Proofs.Insertion.Inert

namespace LedgerWatch.Contextual

variable {k : Nat}

def moved {α : Type} (k : Nat) (p : Nat × α) : Nat × α := (past k p.1, p.2)

theorem readings_map_shift (field : String) (members : List Member) :
    readings field (members.map (shift k)) = (readings field members).map (moved k) := by
  rw [readings, List.filterMap_map, readings, List.map_filterMap]
  congr 1
  funext m
  simp only [Function.comp, shift, Option.map_map]
  rfl

theorem fieldScores_map_shift (c : Settings) (members : List Member) (field : String) :
    c.fieldScores (members.map (shift k)) field = (c.fieldScores members field).map (moved k) := by
  have hvalues : ((readings field members).map (moved k)).map Prod.snd =
      (readings field members).map Prod.snd := by
    rw [List.map_map]
    rfl
  simp only [Settings.fieldScores, readings_map_shift, hvalues]
  cases Stats.PeerStats.ofValues? ((readings field members).map Prod.snd) with
  | none => rfl
  | some peers =>
    simp only [List.zip_map_left, List.filterMap_map, List.map_filterMap]
    congr 1
    funext p
    simp only [Function.comp, Prod.map, moved, id, Option.map_map]
    rfl

theorem own_map_moved (scores : List (Nat × FieldScore)) (i : Nat) :
    (((scores.map (moved k)).filter fun p => p.1 == past k i).map Prod.snd) =
      ((scores.filter fun p => p.1 == i).map Prod.snd) := by
  have hsame : ∀ j, (past k j == past k i) = (j == i) := by
    intro j
    rw [Bool.eq_iff_iff, beq_iff_eq, beq_iff_eq]
    exact (past_injective k).eq_iff
  simp only [List.filter_map, List.map_map, Function.comp_def, moved, hsame]

theorem groupFindings_map_shift (c : Settings) (bands : Bands) (grouping : Grouping)
    (group : String × List Member) :
    c.groupFindings bands grouping (group.1, group.2.map (shift k)) =
      (c.groupFindings bands grouping group).map (Finding.reindex (past k)) := by
  have hscores : (fields grouping).flatMap (c.fieldScores (group.2.map (shift k))) =
      ((fields grouping).flatMap (c.fieldScores group.2)).map (moved k) := by
    rw [List.map_flatMap]
    congr 1
    funext field
    exact fieldScores_map_shift c group.2 field
  simp only [Settings.groupFindings, hscores, List.filterMap_map, List.map_filterMap,
    List.length_map]
  congr 1
  funext m
  simp only [Function.comp, shift, own_map_moved]
  split <;> rfl

variable {r : Record}

theorem groups_inserted (hr : r.IsInert) (grouping : Grouping) (before after : List Record) :
    groups grouping (before ++ r :: after) =
      (groups grouping (before ++ after)).map
        fun g => (g.1, g.2.map (shift before.length)) := by
  have hkey : key? grouping r = none := by
    cases grouping with
    | category => exact hr.merchantCategory
    | state => exact hr.merchantState
    | type => exact hr.transactionType
  have hzip := (Inserted.intro before after r).zipIdx
  rw [groups, hzip.groupBy hkey, Sorted.groupBy_map]
  rfl

theorem groupingFindings_inserted (c : Settings) (bands : Bands) (hr : r.IsInert)
    (before after : List Record) (grouping : Grouping) :
    c.groupingFindings bands (before ++ r :: after) grouping =
      (c.groupingFindings bands (before ++ after) grouping).map
        (Finding.reindex (past before.length)) := by
  rw [Settings.groupingFindings, groups_inserted hr, List.flatMap_map, Settings.groupingFindings,
    List.map_flatMap]
  simp only [groupFindings_map_shift]

theorem detect_inserted {c : Settings} (hc : c.check = .ok ()) (bands : Bands) (hr : r.IsInert)
    (before after : List Record) :
    c.detect bands (before ++ r :: after) =
      (c.detect bands (before ++ after)).reindex (past before.length) := by
  rw [detect_eq hc, detect_eq hc, Outcome.reindex, ← Ranking.firsts_reindex (past_injective _),
    List.map_flatMap]
  congr 3
  funext grouping
  exact groupingFindings_inserted c bands hr before after grouping

end LedgerWatch.Contextual
