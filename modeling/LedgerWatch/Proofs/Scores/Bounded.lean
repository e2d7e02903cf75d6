import LedgerWatch.Proofs.Density.Findings
import LedgerWatch.Proofs.Isolation.Findings
import LedgerWatch.Proofs.Scores.Basic
import LedgerWatch.Proofs.Similarity.Findings

namespace LedgerWatch

open Binary64

namespace Isolation

theorem mem_scores_of_mem_flagged {c : Settings} {scores : List (Option Float)} {p : Nat × Float}
    (h : p ∈ c.flagged scores) : some p.2 ∈ scores :=
  List.mem_of_getElem? (mem_above_iff.1 (mem_above_of_mem_flagged h)).1

theorem halving_of_mem_scores? {c : Settings} {seed : UInt64} {t : Table}
    {scores : List (Option Float)} (h : c.scores? seed t = .ok scores) {score : Float}
    (hs : some score ∈ scores) : ∃ x, score = Elementary.halving x := by
  rcases scores?_eq_ok h with ⟨-, rfl⟩ | ⟨-, trees, -, hscores⟩
  · cases List.eq_of_mem_replicate hs
  · obtain ⟨sample, -, hsample⟩ := Lists.exists_of_mem_mapM hscores hs
    unfold scoreWith? at hsample
    split at hsample
    · obtain ⟨path, -, hpath⟩ := Option.bind_eq_some_iff.1 hsample
      exact ⟨_, (Option.some.inj (Option.some.inj hpath)).symm⟩
    · cases hsample

theorem isScore_of_detect {c : Settings} {scaling : Scaling} {bands : Bands} {entropy : UInt64}
    {records : List Record} {fs : List Finding}
    (h : c.detect scaling bands entropy records = .found fs) : ∀ f ∈ fs, IsScore f.score := by
  obtain ⟨scores, hs, rfl⟩ := exists_scores_of_detect h
  intro f hf
  obtain ⟨p, hp, rfl⟩ := List.mem_map.1 hf
  obtain ⟨x, hx⟩ := halving_of_mem_scores? hs (mem_scores_of_mem_flagged hp)
  obtain ⟨hwithin, hnonneg⟩ := Elementary.halving_between x
  show IsScore p.2
  rw [hx]
  exact ⟨hwithin.isFinite, hnonneg⟩

end Isolation

namespace Density

variable {c : Settings}

theorem isFinite_of_factor? {densities : Array (Option Float)} {near : List Entry}
    {own : Option Float} {factor : Float} (h : factor? densities near own = some factor) :
    factor.isFinite = true := by
  obtain ⟨own, -, h⟩ := Option.bind_eq_some_iff.1 h
  simp only at h
  split at h
  · cases h
  · split at h
    · rename_i hfinite
      exact Option.some.inj h ▸ hfinite
    · cases h

theorem isFinite_of_mem_standings {rows : List (List Float)} {s : Standing}
    (hs : s ∈ c.standings rows) {factor : Float} (h : s.factor = some factor) :
    factor.isFinite = true := by
  unfold Settings.standings at hs
  split at hs
  · obtain ⟨row, -, rfl⟩ := List.mem_map.1 hs
    cases h
  · simp only [← List.map_uncurry_zip_eq_zipWith] at hs
    obtain ⟨⟨es, far, own⟩, -, rfl⟩ := List.mem_map.1 hs
    exact isFinite_of_factor? h

/-- A factor above a positive threshold is positive itself, so that the clamp meets a number. -/
theorem isScore_of_finding? (hc : c.check = .ok ()) {bands : Bands} {i : Nat} {s : Standing}
    (hs : ∀ factor, s.factor = some factor → factor.isFinite = true) {f : Finding}
    (h : c.finding? bands i s = some f) : IsScore f.score := by
  obtain ⟨-, hc⟩ := Fault.of_require_bind hc
  obtain ⟨hthreshold, hscale⟩ := Fault.of_require_bind hc
  replace hthreshold := of_decide_eq_true hthreshold
  replace hscale := of_decide_eq_true (Fault.of_require hscale)
  obtain ⟨factor, hfactor, h⟩ := Option.bind_eq_some_iff.1 h
  have hfinite := hs factor hfactor
  split at h
  · cases h
  · rename_i habove
    obtain rfl := Option.some.inj h
    have hnan := not_isNaN_of_isFinite hfinite
    have hle : c.threshold ≤ factor :=
      (le_total (not_isNaN_of_lt hthreshold).2 hnan).resolve_right habove
    have hnonneg := le_trans (le_of_lt hthreshold) hle
    have hquotient := zero_le_div hfinite hnonneg hscale
    exact .of_le_one (clamp_zero_one (not_isNaN_of_le hquotient).2)

theorem isScore_of_detect (hc : c.check = .ok ()) {scaling : Scaling} {bands : Bands}
    {records : List Record} {fs : List Finding}
    (h : c.detect scaling bands records = .found fs) : ∀ f ∈ fs, IsScore f.score := by
  rw [detect_eq hc] at h
  obtain rfl := Outcome.found.inj h
  intro f hf
  obtain ⟨⟨s, i⟩, hs, hfound⟩ := List.mem_filterMap.1 hf
  exact isScore_of_finding? hc
    (fun _ => isFinite_of_mem_standings (List.fst_mem_of_mem_zipIdx hs)) hfound

end Density

namespace Similarity

variable {c : Settings}

/-- A similarity is a number only for a product that is one. -/
theorem not_isNaN_of_similarity {gamma d : Float} (h : (similarity gamma d).isNaN = false) :
    (gamma * d).isNaN = false := by
  by_contra hproduct
  rw [Bool.not_eq_false] at hproduct
  rw [similarity, Elementary.decay_of_isNaN hproduct, hproduct] at h
  cases h

/-- A similarity that is a number is at most two, and a sum of such terms does not grow for ever. -/
theorem within_of_mean? {gamma : Float} {rows : List (List Float)} {i : Nat} {mean : Float}
    (h : mean? gamma rows i = some mean) (hnumber : mean.isNaN = false) : Within 55 mean := by
  unfold mean? at h
  simp only at h
  split at h
  · cases h
  · rename_i hne
    obtain rfl := Option.some.inj h
    have hpos : 0 < (squaredDistances rows i).length := by
      rw [List.length_pos_iff]
      simpa using hne
    have hterms := (not_isNaN_of_foldl (not_isNaN_of_div hnumber)).2
    have hsum : Within (54 + 1) ((squaredDistances rows i).foldl
        (fun total d => total + similarity gamma d) 0) :=
      .foldl (by norm_num) (by decide)
        (fun d hd => (Elementary.decay_between (not_isNaN_of_similarity (hterms d hd))).1) (.zero _)
    exact hsum.div_of_one_le (one_le_ofNat hpos)

theorem isScore_of_finding? (hc : c.check = .ok ()) {bands : Bands} {i : Nat}
    {mean : Option Float} (hmean : ∀ x, mean = some x → x.isNaN = false → Within 55 x)
    {f : Finding}
    (h : c.finding? bands i mean = some f) : IsScore f.score := by
  obtain ⟨hnu, -⟩ := Fault.of_require_bind hc
  rw [Bool.and_eq_true] at hnu
  have hnu₀ := of_decide_eq_true hnu.1
  have hnu₁ := of_decide_eq_true hnu.2
  simp only [Settings.finding?, bind, Option.bind_eq_some_iff] at h
  obtain ⟨mean, rfl, h⟩ := h
  split at h
  · rename_i hbelow
    obtain rfl := Option.some.inj h
    have hnumber : mean.isNaN = false := not_isNaN_of_sub (not_isNaN_of_lt hbelow).1
    have hnu : Within 0 c.nu := by
      have hfinite := isFinite_of_zero_le_of_le (le_of_lt hnu₀) isFinite_one hnu₁
      refine ⟨hfinite, ?_⟩
      rw [abs_of_nonneg (zero_le_value (le_of_lt hnu₀)), zpow_zero, ← value_one]
      exact (le_iff_value hfinite isFinite_one).1 hnu₁
    have hdecision : Within (55 + 1) (mean - c.nu) :=
      (hmean mean rfl hnumber).sub (hnu.mono (by norm_num)) (by decide)
    have hfinite := hdecision.isFinite
    exact ⟨(isFinite_abs _).trans hfinite, zero_le_abs (not_isNaN_of_isFinite hfinite)⟩
  · cases h

theorem isScore_of_detect (hc : c.check = .ok ()) {scaling : Scaling} {bands : Bands}
    {records : List Record} {fs : List Finding}
    (h : c.detect scaling bands records = .found fs) : ∀ f ∈ fs, IsScore f.score := by
  rw [detect_eq hc] at h
  obtain rfl := Outcome.found.inj h
  intro f hf
  obtain ⟨⟨mean, i⟩, hmean, hfound⟩ := List.mem_filterMap.1 hf
  obtain ⟨j, -, hj⟩ := List.mem_map.1 (List.fst_mem_of_mem_zipIdx hmean)
  exact isScore_of_finding? hc (fun x hx => within_of_mean? (hj.trans hx)) hfound

end Similarity

end LedgerWatch
