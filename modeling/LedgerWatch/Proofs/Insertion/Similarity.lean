import LedgerWatch.Proofs.Insertion.Inert
import LedgerWatch.Proofs.Similarity.Findings

namespace LedgerWatch.Similarity

variable {k : Nat} {row : List Float} {rows rows' : List (List Float)}

theorem squaredDistances_past (hrow : Blank row) (h : Inserted k row rows rows') (i : Nat) :
    squaredDistances rows' (past k i) = squaredDistances rows i := by
  simp only [squaredDistances, h.getElem?_past]
  apply h.filterMap_zipIdx
  · rw [if_neg (past_ne k i).symm, hrow.squaredDistance?_right]
  · intro other j
    simp only [(past_injective k).eq_iff]

theorem mean?_self (hrow : Blank row) (h : Inserted k row rows rows') (gamma : Float) :
    mean? gamma rows' k = none := by
  have hnil : squaredDistances rows' k = [] := by
    simp only [squaredDistances, h.getElem?_self, Option.getD_some]
    apply List.filterMap_eq_nil_iff.2
    intro m _
    simp only [hrow.squaredDistance?_left]
    split <;> rfl
  simp only [mean?, hnil, List.isEmpty_nil, if_true]

theorem means_inserted (hrow : Blank row) (h : Inserted k row rows rows') (gamma : Float) :
    Inserted k none ((List.range rows.length).map (mean? gamma rows))
      ((List.range rows'.length).map (mean? gamma rows')) := by
  have hmeans := (Inserted.range h.le_length).map (mean? gamma rows')
  have hold : mean? gamma rows' ∘ past k = mean? gamma rows := by
    funext i
    simp only [Function.comp, mean?, squaredDistances_past hrow h]
  rw [mean?_self hrow h, List.map_map, hold, ← h.length_eq] at hmeans
  exact hmeans

theorem finding?_past (c : Settings) (bands : Bands) (k i : Nat) (mean : Option Float) :
    c.finding? bands (past k i) mean =
      (c.finding? bands i mean).map (Finding.reindex (past k)) := by
  cases mean with
  | none => rfl
  | some mean =>
    simp only [Settings.finding?, bind, Option.bind_some]
    split <;> rfl

theorem detect_inserted {c : Settings} (hc : c.check = .ok ()) (scaling : Scaling) (bands : Bands)
    {r : Record} (hr : r.IsInert) (before after : List Record) :
    c.detect scaling bands (before ++ r :: after) =
      (c.detect scaling bands (before ++ after)).reindex (past before.length) := by
  obtain ⟨row, hrow, hrows⟩ := (blankAt_scaledFeatures hr before after scaling).rows
  rw [detect_eq hc, detect_eq hc, Outcome.reindex]
  congr 1
  apply (means_inserted hrow hrows c.gamma).filterMap_zipIdx_map
  · rfl
  · intro mean i
    exact finding?_past c bands before.length i mean

end LedgerWatch.Similarity
