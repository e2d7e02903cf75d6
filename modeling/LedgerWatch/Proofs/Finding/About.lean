import LedgerWatch.Proofs.Finding.Ranked
import LedgerWatch.Proofs.Keys

namespace LedgerWatch.Ranking

def about (i : Nat) (fs : List Finding) : List Finding := fs.filter fun f => f.record = i

variable {i : Nat}

theorem mem_about {fs : List Finding} {f : Finding} : f ∈ about i fs ↔ f ∈ fs ∧ f.record = i := by
  rw [about, List.mem_filter, decide_eq_true_eq]

theorem about_append (fs gs : List Finding) : about i (fs ++ gs) = about i fs ++ about i gs :=
  List.filter_append ..

theorem about_flatMap {α : Type} (xs : List α) (find : α → List Finding) :
    about i (xs.flatMap find) = xs.flatMap fun x => about i (find x) := List.filter_flatMap

theorem about_eq_nil {fs : List Finding} (h : ∀ f ∈ fs, f.record ≠ i) : about i fs = [] := by
  apply List.filter_eq_nil_iff.2
  intro f hf
  rw [decide_eq_true_eq]
  exact h f hf

/-- Of findings on one subject the first one stays. -/
theorem firsts_eq_head {fs : List Finding} (h : ∀ f ∈ fs, ∀ g ∈ fs, sameSubject f g) :
    firsts fs = fs.head?.toList := by
  cases fs with
  | nil => rfl
  | cons f fs =>
    have hnone : ((firsts fs).filter fun g => !sameSubject f g) = [] := by
      apply List.filter_eq_nil_iff.2
      intro g hg
      have hsame := h f List.mem_cons_self g
        (List.mem_cons_of_mem f ((firsts_sublist fs).subset hg))
      simp [hsame]
    rw [firsts, hnone]
    rfl

/-- Of what one method found about a record the first finding stays. -/
theorem about_firsts {m : Method} {fs : List Finding} (hm : ∀ f ∈ fs, f.method = m) :
    about i (firsts fs) = (about i fs).head?.toList := by
  rw [about, filter_firsts, ← about, firsts_eq_head]
  · intro f hf g hg
    obtain ⟨hf, hfi⟩ := mem_about.1 hf
    obtain ⟨hg, hgi⟩ := mem_about.1 hg
    exact sameSubject_iff.2 ⟨hfi.trans hgi.symm, (hm f hf).trans (hm g hg).symm⟩
  · intro f g hsame
    rw [(sameSubject_iff.1 hsame).1]

section Subjects

variable {α : Type} {xs : List α} {record : α → Nat}

variable (record) in
theorem about_filterMap {find : α → Option Finding}
    (hfind : ∀ x f, find x = some f → f.record = record x) (hxs : (xs.map record).Nodup) {x : α}
    (hx : x ∈ xs) : about (record x) (xs.filterMap find) = (find x).toList :=
  Lists.filter_filterMap_of_nodup hfind hxs hx

section Groups

variable {κ : Type} [LT κ] [DecidableLT κ] [DecidableEq κ] [IsStrictTotalOrder κ (· < ·)]
  {key : α → Option κ} {find : κ × List α → List Finding}
  (hfind : ∀ group, ∀ f ∈ find group, ∃ x ∈ group.2, f.record = record x)
  (hxs : (xs.map record).Nodup)
include hfind hxs

/-- Of findings for the members of groups those about a member are in its own group. -/
theorem about_flatMap_groupBy {x : α} (hx : x ∈ xs) {k : κ} (hk : key x = some k) :
    about (record x) ((Sorted.groupBy key xs).flatMap find) =
      about (record x) (find (k, xs.filter fun y => key y = some k)) := by
  have hgroup : (k, xs.filter fun y => key y = some k) ∈ Sorted.groupBy key xs := by
    obtain ⟨group, hmem, rfl⟩ := List.mem_map.1 (Sorted.mem_keys_groupBy.2 ⟨x, hx, hk⟩)
    rw [← Sorted.snd_of_mem_groupBy hmem]
    exact hmem
  have hkeys : (Sorted.groupBy key xs).Nodup :=
    (Sorted.increasing_groupBy key xs).imp fun hlt heq => Sorted.ne_of_lt hlt (congrArg _ heq)
  rw [about_flatMap, Lists.flatMap_eq_of_nodup hkeys hgroup]
  intro group hmem hne
  apply about_eq_nil
  intro f hf heq
  obtain ⟨y, hy, hrecord⟩ := hfind group f hf
  obtain ⟨hmemy, hkey⟩ := Sorted.mem_of_mem_groupBy hmem hy
  obtain rfl := List.inj_on_of_nodup_map hxs hmemy hx (hrecord.symm.trans heq)
  obtain rfl := Option.some.inj (hk.symm.trans hkey)
  exact hne (Prod.ext rfl (Sorted.snd_of_mem_groupBy hmem))

theorem about_flatMap_groupBy_of_none {x : α} (hx : x ∈ xs) (hk : key x = none) :
    about (record x) ((Sorted.groupBy key xs).flatMap find) = [] := by
  apply about_eq_nil
  intro f hf heq
  obtain ⟨group, hmem, hf⟩ := List.mem_flatMap.1 hf
  obtain ⟨y, hy, hrecord⟩ := hfind group f hf
  obtain ⟨hmemy, hkey⟩ := Sorted.mem_of_mem_groupBy hmem hy
  obtain rfl := List.inj_on_of_nodup_map hxs hmemy hx (hrecord.symm.trans heq)
  rw [hk] at hkey
  cases hkey

end Groups

end Subjects

end LedgerWatch.Ranking
