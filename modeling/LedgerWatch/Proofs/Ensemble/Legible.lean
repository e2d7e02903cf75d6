import LedgerWatch.Ensemble.Report
import LedgerWatch.Proofs.Finding.Reread
import LedgerWatch.Proofs.Json.Unambiguous
import LedgerWatch.Proofs.Lists

namespace LedgerWatch

open Json

/-- A double as far as a text tells it: without a finite value it is written as null. -/
def legible (x : Float) : Float := if x.isFinite then x else Binary64.nan

theorem legible_of_ofFloat_eq {x y : Float} (h : ofFloat x = ofFloat y) :
    legible x = legible y := by
  unfold ofFloat at h
  split_ifs at h with hx hy hy
  · obtain rfl : x = y := by simpa using h
    rfl
  · rw [legible, legible, if_neg hx, if_neg hy]

theorem Json.ofNat_injOn : Set.InjOn ofNat {n | n < UInt64.size} := by
  intro m hm n hn h
  have hread := nat?_ofNat hm
  rw [h, nat?_ofNat hn] at hread
  exact (Option.some.inj hread).symm

def legiblePair (p : Float × Float) : Float × Float := (legible p.1, legible p.2)

theorem legiblePair_of_pairJson_eq {p q : Float × Float} (h : pairJson p = pairJson q) :
    legiblePair p = legiblePair q := by
  obtain ⟨hfst, hsnd⟩ : ofFloat p.1 = ofFloat q.1 ∧ ofFloat p.2 = ofFloat q.2 := by
    simpa [pairJson] using h
  rw [legiblePair, legiblePair, legible_of_ofFloat_eq hfst, legible_of_ofFloat_eq hsnd]

namespace FieldScore

def legible (s : FieldScore) : FieldScore :=
  ⟨s.field, LedgerWatch.legible s.value, LedgerWatch.legible s.zScore, legiblePair s.expected⟩

theorem legible_of_toJson_eq {s t : FieldScore} (h : s.toJson = t.toJson) :
    s.legible = t.legible := by
  obtain ⟨hfield, hvalue, hscore, hexpected⟩ : s.field = t.field ∧
      ofFloat s.value = ofFloat t.value ∧ ofFloat s.zScore = ofFloat t.zScore ∧
        pairJson s.expected = pairJson t.expected := by
    simpa [toJson] using h
  rw [legible, legible, hfield, legible_of_ofFloat_eq hvalue, legible_of_ofFloat_eq hscore,
    legiblePair_of_pairJson_eq hexpected]

end FieldScore

namespace Evidence

def legible : Evidence → Evidence
  | .isolation path trees => .isolation (LedgerWatch.legible path) trees
  | .localOutlier factor density neighbors =>
    .localOutlier (LedgerWatch.legible factor) (LedgerWatch.legible density) neighbors
  | .similarity mean decision =>
    .similarity (LedgerWatch.legible mean) (LedgerWatch.legible decision)
  | .contextual grouping group size scores =>
    .contextual grouping group size (scores.map FieldScore.legible)
  | .rolling mean std z direction =>
    .rolling (LedgerWatch.legible mean) (LedgerWatch.legible std) (LedgerWatch.legible z) direction
  | .seasonal month expected z =>
    .seasonal month (legiblePair expected) (LedgerWatch.legible z)
  | .trend position predicted residual threshold =>
    .trend position (LedgerWatch.legible predicted) (LedgerWatch.legible residual)
      (LedgerWatch.legible threshold)
  | .fraudCluster cluster size fraudEdges risk nodes =>
    .fraudCluster cluster size fraudEdges (LedgerWatch.legible risk) nodes
  | .merchantRate merchant rate amount z =>
    .merchantRate merchant (LedgerWatch.legible rate) (LedgerWatch.legible amount)
      (LedgerWatch.legible z)
  | .customerBehavior customer rate diversity =>
    .customerBehavior customer (LedgerWatch.legible rate) (LedgerWatch.legible diversity)

theorem legible_of_toJson_eq {e e' : Evidence} (h : e.toJson = e'.toJson) (hsized : e.Sized)
    (hsized' : e'.Sized) : e.legible = e'.legible := by
  obtain ⟨hkind, hmembers⟩ : e.kind = e'.kind ∧ e.members = e'.members := by
    simpa [toJson] using h
  cases e with
  | isolation path trees =>
    cases e' with
    | isolation path' trees' =>
      obtain ⟨hpath, htrees⟩ : ofFloat path = ofFloat path' ∧ ofNat trees = ofNat trees' := by
        simpa [members] using hmembers
      rw [legible, legible, legible_of_ofFloat_eq hpath, ofNat_injOn hsized hsized' htrees]
    | _ => simp [kind] at hkind
  | localOutlier factor density neighbors =>
    cases e' with
    | localOutlier factor' density' neighbors' =>
      obtain ⟨hfactor, hdensity, hneighbors⟩ : ofFloat factor = ofFloat factor' ∧
          ofFloat density = ofFloat density' ∧ ofNat neighbors = ofNat neighbors' := by
        simpa [members] using hmembers
      rw [legible, legible, legible_of_ofFloat_eq hfactor, legible_of_ofFloat_eq hdensity,
        ofNat_injOn hsized hsized' hneighbors]
    | _ => simp [kind] at hkind
  | similarity mean decision =>
    cases e' with
    | similarity mean' decision' =>
      obtain ⟨hmean, hdecision⟩ : ofFloat mean = ofFloat mean' ∧
          ofFloat decision = ofFloat decision' := by
        simpa [members] using hmembers
      rw [legible, legible, legible_of_ofFloat_eq hmean, legible_of_ofFloat_eq hdecision]
    | _ => simp [kind] at hkind
  | contextual grouping group size scores =>
    cases e' with
    | contextual grouping' group' size' scores' =>
      obtain ⟨hgrouping, rfl, hsize, hscores⟩ : grouping.name = grouping'.name ∧ group = group' ∧
          ofNat size = ofNat size' ∧
            scores.map FieldScore.toJson = scores'.map FieldScore.toJson := by
        simpa only [members, List.cons.injEq, Prod.mk.injEq, true_and, and_true, string.injEq,
          array.injEq] using hmembers
      obtain rfl : grouping = grouping' := by
        cases grouping <;> cases grouping' <;> simp [Grouping.name] at hgrouping ⊢
      rw [legible, legible, ofNat_injOn hsized hsized' hsize,
        Lists.map_eq_map_of_forall (fun _ _ _ _ => FieldScore.legible_of_toJson_eq) hscores]
    | _ => simp [kind] at hkind
  | rolling mean std z direction =>
    cases e' with
    | rolling mean' std' z' direction' =>
      obtain ⟨hmean, hstd, hz, hdirection⟩ : ofFloat mean = ofFloat mean' ∧
          ofFloat std = ofFloat std' ∧ ofFloat z = ofFloat z' ∧
            direction.name = direction'.name := by
        simpa [members] using hmembers
      obtain rfl : direction = direction' := by
        cases direction <;> cases direction' <;> simp [Direction.name] at hdirection ⊢
      rw [legible, legible, legible_of_ofFloat_eq hmean, legible_of_ofFloat_eq hstd,
        legible_of_ofFloat_eq hz]
    | _ => simp [kind] at hkind
  | seasonal month expected z =>
    cases e' with
    | seasonal month' expected' z' =>
      obtain ⟨hmonth, hexpected, hz⟩ : ofNat month = ofNat month' ∧
          pairJson expected = pairJson expected' ∧ ofFloat z = ofFloat z' := by
        simpa [members] using hmembers
      rw [legible, legible, ofNat_injOn (hsized.trans_le size_le_size)
        (hsized'.trans_le size_le_size) hmonth, legiblePair_of_pairJson_eq hexpected,
        legible_of_ofFloat_eq hz]
    | _ => simp [kind] at hkind
  | trend position predicted residual threshold =>
    cases e' with
    | trend position' predicted' residual' threshold' =>
      obtain ⟨hposition, hpredicted, hresidual, hthreshold⟩ : ofNat position = ofNat position' ∧
          ofFloat predicted = ofFloat predicted' ∧ ofFloat residual = ofFloat residual' ∧
            ofFloat threshold = ofFloat threshold' := by
        simpa [members] using hmembers
      rw [legible, legible, ofNat_injOn hsized hsized' hposition, legible_of_ofFloat_eq hpredicted,
        legible_of_ofFloat_eq hresidual, legible_of_ofFloat_eq hthreshold]
    | _ => simp [kind] at hkind
  | fraudCluster cluster size fraudEdges risk nodes =>
    cases e' with
    | fraudCluster cluster' size' fraudEdges' risk' nodes' =>
      obtain ⟨hcluster, hsize, hedges, hrisk, hnodes⟩ : ofNat cluster = ofNat cluster' ∧
          ofNat size = ofNat size' ∧ ofNat fraudEdges = ofNat fraudEdges' ∧
            ofFloat risk = ofFloat risk' ∧ nodes.map Json.string = nodes'.map Json.string := by
        simpa only [members, List.cons.injEq, Prod.mk.injEq, true_and, and_true,
          array.injEq] using hmembers
      rw [legible, legible, ofNat_injOn hsized.1 hsized'.1 hcluster,
        ofNat_injOn hsized.2.1 hsized'.2.1 hsize, ofNat_injOn hsized.2.2 hsized'.2.2 hedges,
        legible_of_ofFloat_eq hrisk, List.map_injective_iff.2 (fun _ _ => string.inj) hnodes]
    | _ => simp [kind] at hkind
  | merchantRate merchant rate amount z =>
    cases e' with
    | merchantRate merchant' rate' amount' z' =>
      obtain ⟨rfl, hrate, hamount, hz⟩ : merchant = merchant' ∧ ofFloat rate = ofFloat rate' ∧
          ofFloat amount = ofFloat amount' ∧ ofFloat z = ofFloat z' := by
        simpa [members] using hmembers
      rw [legible, legible, legible_of_ofFloat_eq hrate, legible_of_ofFloat_eq hamount,
        legible_of_ofFloat_eq hz]
    | _ => simp [kind] at hkind
  | customerBehavior customer rate diversity =>
    cases e' with
    | customerBehavior customer' rate' diversity' =>
      obtain ⟨rfl, hrate, hdiversity⟩ : customer = customer' ∧ ofFloat rate = ofFloat rate' ∧
          ofFloat diversity = ofFloat diversity' := by
        simpa [members] using hmembers
      rw [legible, legible, legible_of_ofFloat_eq hrate, legible_of_ofFloat_eq hdiversity]
    | _ => simp [kind] at hkind

end Evidence

namespace Finding

def legible (f : Finding) : Finding :=
  { f with score := LedgerWatch.legible f.score, evidence := f.evidence.legible }

theorem legible_of_toJson_eq {f g : Finding} (h : f.toJson = g.toJson) (hsized : f.Sized)
    (hsized' : g.Sized) : f.legible = g.legible := by
  obtain ⟨hrecord, hscore, hmethod, hseverity, hevidence⟩ : ofNat f.record = ofNat g.record ∧
      ofFloat f.score = ofFloat g.score ∧ f.method.name = g.method.name ∧
        f.severity.name = g.severity.name ∧ f.evidence.toJson = g.evidence.toJson := by
    simpa [toJson] using h
  rw [legible, legible, ofNat_injOn hsized.1 hsized'.1 hrecord, legible_of_ofFloat_eq hscore,
    method_name_injective hmethod, severity_name_injective hseverity,
    Evidence.legible_of_toJson_eq hevidence hsized.2 hsized'.2]

end Finding

namespace Ensemble

theorem Status.toJson_injective : Function.Injective toJson := by
  intro s t h
  cases s <;> cases t <;> simp_all [toJson]

def Counted {α : Type} (counts : List (α × Nat)) : Prop := ∀ p ∈ counts, p.2 < UInt64.size

/-- Counts by name are told by their members. -/
theorem eq_of_counts_eq {α : Type} {name : α → String} (hname : Function.Injective name)
    {counts counts' : List (α × Nat)} (hsized : Counted counts) (hsized' : Counted counts')
    (h : counts.map (fun p => (name p.1, ofNat p.2)) =
      counts'.map fun p => (name p.1, ofNat p.2)) : counts = counts' := by
  have hmap := Lists.map_eq_map_of_forall (g := id) (fun p hp q hq hpq =>
    Prod.ext (hname (Prod.mk.inj hpq).1)
      (ofNat_injOn (hsized p hp) (hsized' q hq) (Prod.mk.inj hpq).2)) h
  rwa [List.map_id, List.map_id] at hmap

namespace Summary

structure Sized (s : Summary) : Prop where
  anomalies : s.anomalies < UInt64.size
  records : s.records < UInt64.size
  flagged : s.flagged < UInt64.size
  bySeverity : Counted s.bySeverity
  byMethod : Counted s.byMethod
  byCategory : Counted s.byCategory

theorem eq_of_toJson_eq {s t : Summary} (h : s.toJson = t.toJson) (hs : s.Sized)
    (ht : t.Sized) : s = t := by
  obtain ⟨anomalies, records, flagged, bySeverity, byMethod, byCategory⟩ := s
  obtain ⟨anomalies', records', flagged', bySeverity', byMethod', byCategory'⟩ := t
  simp only [toJson, object.injEq, List.cons.injEq, Prod.mk.injEq, true_and, and_true] at h
  obtain ⟨hanomalies, hrecords, hflagged, hseverity, hmethod, hcategory, -⟩ := h
  obtain rfl := ofNat_injOn hs.anomalies ht.anomalies hanomalies
  obtain rfl := ofNat_injOn hs.records ht.records hrecords
  obtain rfl := ofNat_injOn hs.flagged ht.flagged hflagged
  obtain rfl := eq_of_counts_eq Finding.severity_name_injective hs.bySeverity ht.bySeverity
    hseverity
  obtain rfl := eq_of_counts_eq Finding.method_name_injective hs.byMethod ht.byMethod hmethod
  obtain rfl := eq_of_counts_eq Function.injective_id hs.byCategory ht.byCategory hcategory
  rfl

end Summary

namespace Pattern

/-- What a text tells of a pattern. The limit stands in the description alone. -/
def legible (p : Pattern) : String × String × Nat × Option String :=
  (p.kind, p.description, p.count, p.key?)

theorem legible_of_toJson_eq {p q : Pattern} (h : p.toJson = q.toJson)
    (hp : p.count < UInt64.size) (hq : q.count < UInt64.size) : p.legible = q.legible := by
  simp only [toJson, object.injEq, List.cons_append, List.nil_append, List.cons.injEq,
    Prod.mk.injEq, string.injEq, true_and] at h
  obtain ⟨hkind, hdescription, hcount, hkey⟩ := h
  have hsame : p.key? = q.key? := by
    cases hp' : p.key? <;> cases hq' : q.key? <;> simp_all
  rw [legible, legible, hkind, hdescription, ofNat_injOn hp hq hcount, hsame]

end Pattern

namespace Report

structure Sized (r : Report) : Prop where
  anomalies : ∀ f ∈ r.anomalies, f.Sized
  summary : r.summary.Sized
  patterns : ∀ p ∈ r.patterns, p.count < UInt64.size
  runs : ∀ run ∈ r.runs, run.findings < UInt64.size

/-- Two reports are the same as far as a text tells. -/
structure Alike (r r' : Report) : Prop where
  anomalies : r.anomalies.map Finding.legible = r'.anomalies.map Finding.legible
  summary : r.summary = r'.summary
  patterns : r.patterns.map Pattern.legible = r'.patterns.map Pattern.legible
  runs : r.runs = r'.runs

theorem alike_of_toJson_eq {r r' : Report} {elapsed elapsed' : List Float} (hr : r.Sized)
    (hr' : r'.Sized) (hlen : elapsed.length = r.runs.length)
    (hlen' : elapsed'.length = r'.runs.length) (h : r.toJson elapsed = r'.toJson elapsed') :
    r.Alike r' := by
  simp only [toJson, object.injEq, List.cons.injEq, Prod.mk.injEq, true_and, and_true,
    array.injEq] at h
  obtain ⟨hanomalies, hsummary, hpatterns, hruns⟩ := h
  have hzip := Lists.map_eq_map_of_forall (g := Prod.fst) (fun p hp q hq hpq => ?_) hruns
  · rw [List.map_fst_zip hlen.ge, List.map_fst_zip hlen'.ge] at hzip
    exact {
      anomalies := Lists.map_eq_map_of_forall (fun f hf g hg hfg =>
        Finding.legible_of_toJson_eq hfg (hr.anomalies f hf) (hr'.anomalies g hg)) hanomalies
      summary := Summary.eq_of_toJson_eq hsummary hr.summary hr'.summary
      patterns := Lists.map_eq_map_of_forall (fun p hp q hq hpq =>
        Pattern.legible_of_toJson_eq hpq (hr.patterns p hp) (hr'.patterns q hq)) hpatterns
      runs := hzip }
  · obtain ⟨⟨detector, method, status, findings⟩, time⟩ := p
    obtain ⟨⟨detector', method', status', findings'⟩, time'⟩ := q
    simp only [object.injEq, List.cons.injEq, Prod.mk.injEq, true_and, and_true,
      string.injEq] at hpq
    obtain ⟨rfl, hmethod, hstatus, hfindings, -⟩ := hpq
    obtain rfl := Finding.method_name_injective hmethod
    obtain rfl := Status.toJson_injective hstatus
    obtain rfl := ofNat_injOn (hr.runs _ (List.of_mem_zip hp).1) (hr'.runs _ (List.of_mem_zip hq).1)
      hfindings
    rfl

/-- The text of a report tells all of it but the times. -/
theorem alike_of_pretty_eq {r r' : Report} {elapsed elapsed' : List Float} (hr : r.Sized)
    (hr' : r'.Sized) (hlen : elapsed.length = r.runs.length)
    (hlen' : elapsed'.length = r'.runs.length)
    (h : (r.toJson elapsed).pretty = (r'.toJson elapsed').pretty) : r.Alike r' :=
  alike_of_toJson_eq hr hr' hlen hlen' (pretty_injective h)

end Report

end Ensemble

end LedgerWatch
