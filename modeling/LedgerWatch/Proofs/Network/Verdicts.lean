import LedgerWatch.Ensemble.SettingsJson
import LedgerWatch.Finding.Json
import LedgerWatch.Proofs.Finding.Ranked
import LedgerWatch.Proofs.Network.Reordered
import LedgerWatch.Proofs.Record.Decorated
import LedgerWatch.Proofs.Scores.Shares

namespace LedgerWatch.Network

open Binary64

def Graph.purchases (g : Graph) (customer : String) : List Transfer :=
  g.transfers.toList.filter fun t => t.customer = customer

def Graph.merchantRates (g : Graph) : List Float :=
  (Sorted.distinct (g.transfers.toList.map Transfer.merchant)).map fun m => fraudRate (g.sales m)

structure Verdict where
  score : Float
  evidence : Evidence

def Verdict.finding (bands : Bands) (v : Verdict) (t : Transfer) : Finding :=
  .of bands .network t.record v.score v.evidence

/-- What there is to say of a customer that stands out. -/
def Graph.behavior (g : Graph) (customer : String) : Verdict :=
  let rate := fraudRate (g.purchases customer)
  let variety := diversity (g.purchases customer)
  ⟨larger rate (1 - variety), .customerBehavior customer rate variety⟩

namespace Settings

variable (c : Settings) (g : Graph)

/-- A flagged transfer of a cluster has the risk of the cluster, up to one. -/
def clusterVerdict? (t : Transfer) : Option Verdict :=
  ((c.clusters g).find? fun k => t.fraud ∧ t.payer ∈ k.nodes ∧ t.payee ∈ k.nodes).map fun k =>
    ⟨smaller k.risk 1,
      .fraudCluster k.id k.size k.fraudCount k.risk (k.nodes.map Actor.name)⟩

/-- A merchant stands out by a fraud rate that lies far above the rates of all merchants. -/
def merchantVerdict? (merchant : String) : Option Verdict := do
  let rate := fraudRate (g.sales merchant)
  let population ← Stats.summarize? g.merchantRates
  let z ← population.zScore? rate
  if c.merchantThreshold < z then
    some ⟨rate, .merchantRate merchant rate (averageAmount (g.sales merchant)) z⟩
  else none

/-- A rate beyond its limit, or a variety short of its own. -/
def Suspicious (rate variety : Float) : Prop :=
  c.customerFraudRate < rate ∨ variety < c.customerMinDiversity

instance (rate variety : Float) : Decidable (c.Suspicious rate variety) :=
  inferInstanceAs (Decidable (_ ∨ _))

/-- The limits for customers are numbers, as they always are in settings that were read. -/
def Limited : Prop :=
  c.customerFraudRate.isNaN = false ∧ c.customerMinDiversity.isNaN = false

instance : Decidable c.Limited := inferInstanceAs (Decidable (_ ∧ _))

def customerVerdict? (customer : String) : Option Verdict :=
  if c.Suspicious (fraudRate (g.purchases customer)) (diversity (g.purchases customer)) then
    some (g.behavior customer)
  else none

/-- The first verdict of the three. -/
def verdict? (t : Transfer) : Option Verdict :=
  c.clusterVerdict? g t <|> c.merchantVerdict? g t.merchant <|> c.customerVerdict? g t.customer

/-- What is said of a transfer whatever the limits are: one that is no number keeps no customer from
being found. -/
def judgment? (t : Transfer) : Option Verdict :=
  c.clusterVerdict? g t <|> c.merchantVerdict? g t.merchant <|>
    if c.Limited then c.customerVerdict? g t.customer else some (g.behavior t.customer)

end Settings

/-- Findings for just those transfers that a judge has a verdict on. -/
def Tells (bands : Bands) (ts : List Transfer) (judge : Transfer → Option Verdict)
    (fs : List Finding) : Prop :=
  ∀ f, f ∈ fs ↔ ∃ t ∈ ts, ∃ v, judge t = some v ∧ f = v.finding bands t

section Tells

variable {bands : Bands} {ts : List Transfer} {judge judge' : Transfer → Option Verdict}
  {fs fs' : List Finding}

theorem Tells.any_eq_isSome (h : Tells bands ts judge fs)
    (hrecords : (ts.map Transfer.record).Nodup) {t : Transfer} (ht : t ∈ ts) (v : Verdict) :
    (fs.any fun f => Ranking.sameSubject f (v.finding bands t)) = (judge t).isSome := by
  rw [Bool.eq_iff_iff, List.any_eq_true, Option.isSome_iff_exists]
  constructor
  · rintro ⟨f, hf, hsame⟩
    obtain ⟨t', ht', v', hv', rfl⟩ := (h f).1 hf
    obtain rfl := List.inj_on_of_nodup_map hrecords ht' ht (Ranking.sameSubject_iff.1 hsame).1
    exact ⟨v', hv'⟩
  · rintro ⟨v', hv'⟩
    exact ⟨_, (h _).2 ⟨t, ht, v', hv', rfl⟩, Ranking.sameSubject_iff.2 ⟨rfl, rfl⟩⟩

/-- Of findings behind others those stay that the first judge has no verdict on. -/
theorem Tells.firsts_append (h : Tells bands ts judge (Ranking.firsts fs))
    (h' : Tells bands ts judge' (Ranking.firsts fs'))
    (hrecords : (ts.map Transfer.record).Nodup) :
    Tells bands ts (fun t => judge t <|> judge' t) (Ranking.firsts (fs ++ fs')) := by
  intro f
  rw [Ranking.firsts_append, List.mem_append, List.mem_filter, ← Ranking.any_firsts, h f, h' f]
  constructor
  · rintro (⟨t, ht, v, hv, rfl⟩ | ⟨⟨t, ht, v, hv, rfl⟩, hnew⟩)
    · exact ⟨t, ht, v, by simp [hv], rfl⟩
    -- records are told apart by their positions, so the first judge is silent on this one
    · rw [h.any_eq_isSome hrecords ht, Bool.not_eq_true', Option.isSome_eq_false_iff,
        Option.isNone_iff_eq_none] at hnew
      exact ⟨t, ht, v, by simp [hnew, hv], rfl⟩
  · rintro ⟨t, ht, v, hv, rfl⟩
    cases hj : judge t with
    | some w =>
      obtain rfl : w = v := by simpa [hj] using hv
      exact .inl ⟨t, ht, w, hj, rfl⟩
    | none =>
      have hlater : judge' t = some v := by simpa [hj] using hv
      refine .inr ⟨⟨t, ht, v, hlater, rfl⟩, ?_⟩
      rw [h.any_eq_isSome hrecords ht, hj]
      rfl

end Tells

section Analyses

variable {c : Settings} {g : Graph}

/-- The first cluster with a transfer is the only one. -/
theorem find?_clusters_eq_some_iff {t : Transfer} {k : Cluster} :
    (c.clusters g).find? (fun k => t.fraud ∧ t.payer ∈ k.nodes ∧ t.payee ∈ k.nodes) = some k ↔
      k ∈ c.clusters g ∧ t.fraud = true ∧ t.payer ∈ k.nodes ∧ t.payee ∈ k.nodes := by
  constructor
  · intro h
    exact ⟨List.mem_of_find?_eq_some h, by simpa using List.find?_some h⟩
  · rintro ⟨hk, hfraud, hpayer, hpayee⟩
    cases h : (c.clusters g).find? fun k => t.fraud ∧ t.payer ∈ k.nodes ∧ t.payee ∈ k.nodes with
    | none => exact absurd hpayee (by simpa [hfraud, hpayer] using List.find?_eq_none.1 h k hk)
    | some k' =>
      have hmatch : t.fraud = true ∧ t.payer ∈ k'.nodes ∧ t.payee ∈ k'.nodes := by
        simpa using List.find?_some h
      rw [Lists.eq_of_pairwise_disjoint (pairwise_disjoint_nodes g _)
        (List.mem_of_find?_eq_some h) hk hmatch.2.1 hpayer]

theorem tells_clusterFindings (hindexed : g.Indexed) (c : Settings) (bands : Bands) :
    Tells bands g.transfers.toList (c.clusterVerdict? g)
      ((c.clusters g).flatMap (clusterFindings bands)) := by
  intro f
  rw [List.mem_flatMap]
  constructor
  · rintro ⟨k, hk, hf⟩
    simp only [clusterFindings, Cluster.records, List.map_map] at hf
    obtain ⟨t, ht, rfl⟩ := List.mem_map.1 hf
    rw [fraud_of_mem_clusters hk, mem_fraudWithin_iff hindexed] at ht
    refine ⟨t, ht.1, ⟨smaller k.risk 1, _⟩, ?_, rfl⟩
    rw [Settings.clusterVerdict?, find?_clusters_eq_some_iff.2 ⟨hk, ht.2⟩]
    rfl
  · rintro ⟨t, ht, v, hv, rfl⟩
    obtain ⟨k, hk, rfl⟩ := Option.map_eq_some_iff.1 hv
    obtain ⟨hmem, hin⟩ := find?_clusters_eq_some_iff.1 hk
    have hfraud : t ∈ k.fraud := by
      rw [fraud_of_mem_clusters hmem, mem_fraudWithin_iff hindexed]
      exact ⟨ht, hin⟩
    exact ⟨k, hmem, List.mem_map_of_mem (List.mem_map_of_mem hfraud)⟩

theorem byMerchant_eq (g : Graph) : g.byMerchant =
    (Sorted.distinct (g.transfers.toList.map Transfer.merchant)).map fun m => (m, g.sales m) :=
  Sorted.groupBy_eq_map_distinct Transfer.merchant _

theorem byCustomer_eq (g : Graph) : g.byCustomer =
    (Sorted.distinct (g.transfers.toList.map Transfer.customer)).map fun m =>
      (m, g.purchases m) :=
  Sorted.groupBy_eq_map_distinct Transfer.customer _

/-- Findings for groups tell what is said of the group of each transfer. -/
theorem tells_flatMap_groups {bands : Bands} {key : Transfer → String}
    {judge : String → Option Verdict} {find : String × List Transfer → List Finding} {ts : List Transfer}
    (h : ∀ k ∈ ts.map key, find (k, ts.filter fun t => key t = k) =
      (judge k).elim [] fun v => (ts.filter fun t => key t = k).map (v.finding bands)) :
    Tells bands ts (fun t => judge (key t))
      (((Sorted.distinct (ts.map key)).map fun k => (k, ts.filter fun t => key t = k)).flatMap
        find) := by
  intro f
  rw [List.flatMap_map, List.mem_flatMap]
  constructor
  · rintro ⟨k, hk, hf⟩
    rw [h k (Sorted.mem_distinct.1 hk)] at hf
    cases hv : judge k with
    | none => simp [hv] at hf
    | some v =>
      rw [hv] at hf
      obtain ⟨t, ht, rfl⟩ := List.mem_map.1 hf
      obtain ⟨hmem, hkey⟩ := List.mem_filter.1 ht
      obtain rfl := of_decide_eq_true hkey
      exact ⟨t, hmem, v, hv, rfl⟩
  · rintro ⟨t, ht, v, hv, rfl⟩
    have hk := List.mem_map_of_mem (f := key) ht
    refine ⟨key t, Sorted.mem_distinct.2 hk, ?_⟩
    change judge (key t) = some v at hv
    rw [h _ hk, hv]
    exact List.mem_map_of_mem (List.mem_filter.2 ⟨ht, decide_eq_true rfl⟩)

theorem merchantFindings_eq (bands : Bands) (hthreshold : c.merchantThreshold.isNaN = false)
    {population : Stats.Summary Float} (h : Stats.summarize? g.merchantRates = some population)
    (merchant : String) : c.merchantFindings bands population (merchant, g.sales merchant) =
      (c.merchantVerdict? g merchant).elim [] fun v => (g.sales merchant).map (v.finding bands) := by
  simp only [Settings.merchantFindings, Settings.merchantVerdict?, h, bind, Option.bind_some]
  cases hz : population.zScore? (fraudRate (g.sales merchant)) with
  | none => rfl
  | some z =>
    have hnumber := not_isNaN_of_isFinite (Stats.isFinite_of_zScore? hz)
    by_cases hle : z ≤ c.merchantThreshold
    · have hnot : ¬c.merchantThreshold < z := (not_lt_iff hthreshold hnumber).2 hle
      simp [hle, hnot]
    · have hlt : c.merchantThreshold < z :=
        ((not_le_iff hnumber).1 hle).resolve_right (Bool.eq_false_iff.1 hthreshold)
      simp [hle, hlt, Verdict.finding]

theorem tells_allMerchantFindings (bands : Bands)
    (hthreshold : c.merchantThreshold.isNaN = false) :
    Tells bands g.transfers.toList (fun t => c.merchantVerdict? g t.merchant)
      (c.allMerchantFindings bands g) := by
  have hrates : (g.byMerchant.map fun m => fraudRate m.2) = g.merchantRates := by
    rw [byMerchant_eq, List.map_map]
    rfl
  simp only [Settings.allMerchantFindings, hrates]
  cases hpopulation : Stats.summarize? g.merchantRates with
  | none =>
    intro f
    simp [Settings.merchantVerdict?, hpopulation]
  | some population =>
    dsimp only
    rw [byMerchant_eq]
    exact tells_flatMap_groups fun merchant _ =>
      merchantFindings_eq bands hthreshold hpopulation merchant

theorem isNaN_of_withDefault_float? {fs : Json.Fields} {name : String} {default x : Float}
    (h : fs.withDefault name Json.float? default = some x) (hdefault : default.isNaN = false) :
    x.isNaN = false := by
  unfold Json.Fields.withDefault at h
  split at h
  · rwa [← Option.some.inj h]
  · rename_i j _
    cases j <;> try cases h
    exact not_isNaN_of_isFinite (Json.Number.isFinite_toFloat _)

/-- Neither a number of a text nor a default is no number. -/
theorem limited_of_ofJson? (j : Json) (h : Settings.ofJson? j = some c) : c.Limited := by
  simp only [Settings.ofJson?, bind, Option.bind_eq_some_iff, pure, Option.some.injEq] at h
  obtain ⟨fs, -, size, -, threshold, -, rate, hrate, variety, hvariety, rfl⟩ := h
  exact ⟨isNaN_of_withDefault_float? hrate (by decide),
    isNaN_of_withDefault_float? hvariety (by decide)⟩

theorem orElse_orElse_some {α : Type} (first second : Option α) (last : α) :
    (first <|> second <|> some last) = some ((first <|> second).getD last) := by
  cases first with
  | some x => rfl
  | none => cases second <;> rfl

theorem suspicious_iff (h : c.Limited) {rate variety : Float} (hrate : rate.isNaN = false)
    (hvariety : variety.isNaN = false) : c.Suspicious rate variety ↔
      ¬(rate ≤ c.customerFraudRate ∧ c.customerMinDiversity ≤ variety) := by
  rw [Settings.Suspicious, not_and_or, not_le_iff hrate, not_ge_iff hvariety]
  simp only [h.1, h.2, Bool.false_eq_true, or_false]

/-- Nothing keeps to a limit that is no number. -/
theorem not_kept_of_not_limited (h : ¬c.Limited) (rate variety : Float) :
    ¬(rate ≤ c.customerFraudRate ∧ c.customerMinDiversity ≤ variety) :=
  fun hkept => h ⟨(not_isNaN_of_le hkept.1).2, (not_isNaN_of_le hkept.2).1⟩

theorem length_purchases_lt (hlen : g.transfers.toList.length < 2 ^ 64) (customer : String) :
    (g.purchases customer).length < 2 ^ 64 :=
  (List.length_filter_le _ _).trans_lt hlen

theorem length_purchases_pos {t : Transfer} (ht : t ∈ g.transfers.toList) :
    0 < (g.purchases t.customer).length :=
  List.length_pos_of_mem (List.mem_filter.2 ⟨ht, decide_eq_true rfl⟩)

theorem tells_customerFindings (hlimited : c.Limited) (bands : Bands)
    (hlen : g.transfers.toList.length < 2 ^ 64) :
    Tells bands g.transfers.toList (fun t => c.customerVerdict? g t.customer)
      (g.byCustomer.flatMap (c.customerFindings bands)) := by
  rw [byCustomer_eq]
  refine tells_flatMap_groups fun customer hcustomer => ?_
  have hshort := length_purchases_lt hlen customer
  have hrate := (fraudRate_bounds hshort).1
  have hvariety : IsScore (diversity (g.purchases customer)) := by
    obtain ⟨t, ht, rfl⟩ := List.mem_map.1 hcustomer
    exact (diversity_bounds hshort (length_purchases_pos ht)).1
  have hiff := suspicious_iff hlimited (not_isNaN_of_isFinite hrate.isFinite)
    (not_isNaN_of_isFinite hvariety.isFinite)
  change c.customerFindings bands (customer, g.purchases customer) =
    (c.customerVerdict? g customer).elim [] fun v => (g.purchases customer).map (v.finding bands)
  by_cases hs : c.Suspicious (fraudRate (g.purchases customer)) (diversity (g.purchases customer))
  · have hnot := hiff.1 hs
    simp [Settings.customerFindings, Settings.customerVerdict?, hs, hnot, Graph.behavior,
      Verdict.finding]
  · have hkept := not_not.1 fun hnot => hs (hiff.2 hnot)
    simp [Settings.customerFindings, Settings.customerVerdict?, hs, hkept]

theorem tells_customerFindings_of_not_limited (hlimited : ¬c.Limited) (bands : Bands) (g : Graph) :
    Tells bands g.transfers.toList (fun t => some (g.behavior t.customer))
      (g.byCustomer.flatMap (c.customerFindings bands)) := by
  let judge (customer : String) : Option Verdict := some (g.behavior customer)
  change Tells bands g.transfers.toList (fun t => judge t.customer) _
  rw [byCustomer_eq]
  refine tells_flatMap_groups fun customer _ => ?_
  have hnot := not_kept_of_not_limited hlimited (fraudRate (g.purchases customer))
    (diversity (g.purchases customer))
  change c.customerFindings bands (customer, g.purchases customer) =
    (g.purchases customer).map ((g.behavior customer).finding bands)
  simp [Settings.customerFindings, hnot, Graph.behavior, Verdict.finding]

theorem tells_findings (hindexed : g.Indexed) (bands : Bands)
    (hthreshold : c.merchantThreshold.isNaN = false)
    (hrecords : (g.transfers.toList.map Transfer.record).Nodup)
    {judge : Transfer → Option Verdict} (hcustomers : Tells bands g.transfers.toList judge
      (g.byCustomer.flatMap (c.customerFindings bands))) :
    Tells bands g.transfers.toList
      (fun t => c.clusterVerdict? g t <|> c.merchantVerdict? g t.merchant <|> judge t)
      (Ranking.firsts (c.findings bands g)) := by
  have hclusters := tells_clusterFindings hindexed c bands
  have hmerchants := tells_allMerchantFindings (g := g) bands hthreshold
  -- each analysis on its own finds no record twice
  rw [← Ranking.firsts_eq_self (pairwise_apart_clusterFindings hrecords hindexed c bands)] at hclusters
  rw [← Ranking.firsts_eq_self (pairwise_apart_allMerchantFindings hrecords c bands)]
    at hmerchants
  rw [← Ranking.firsts_eq_self (pairwise_apart_customerFindings hrecords c bands)] at hcustomers
  have hall := (hclusters.firsts_append hmerchants hrecords).firsts_append hcustomers hrecords
  have hverdict : (fun t => c.clusterVerdict? g t <|> c.merchantVerdict? g t.merchant <|> judge t) =
      fun t => (c.clusterVerdict? g t <|> c.merchantVerdict? g t.merchant) <|> judge t := by
    funext t
    cases c.clusterVerdict? g t <;> rfl
  rw [hverdict]
  exact hall

variable {t : Transfer} {v : Verdict}

theorem score_of_clusterVerdict? (hindexed : g.Indexed) (hc : c.check = .ok ())
    (hlen : g.transfers.toList.length < 2 ^ 64) (h : c.clusterVerdict? g t = some v) :
    0 ≤ v.score ∧ v.score ≤ 1 := by
  obtain ⟨k, hk, rfl⟩ := Option.map_eq_some_iff.1 h
  obtain ⟨hsize, hcount⟩ :=
    size_and_fraudCount_of_mem_clusters hindexed hc (List.mem_of_find?_eq_some hk)
  exact smaller_one (isScore_share (hcount.trans_lt hlen) hsize).zero_le

theorem score_of_merchantVerdict? (hlen : g.transfers.toList.length < 2 ^ 64) {merchant : String}
    (h : c.merchantVerdict? g merchant = some v) : 0 ≤ v.score ∧ v.score ≤ 1 := by
  have hshort : (g.sales merchant).length < 2 ^ 64 := (List.length_filter_le _ _).trans_lt hlen
  simp only [Settings.merchantVerdict?, bind, Option.bind_eq_some_iff] at h
  obtain ⟨population, -, z, -, h⟩ := h
  split at h
  · obtain rfl := Option.some.inj h
    obtain ⟨hrate, hle⟩ := fraudRate_bounds hshort
    exact ⟨hrate.zero_le, hle⟩
  · cases h

theorem eq_behavior_of_customerVerdict? {customer : String}
    (h : c.customerVerdict? g customer = some v) : v = g.behavior customer := by
  unfold Settings.customerVerdict? at h
  split at h
  · exact (Option.some.inj h).symm
  · cases h

theorem score_behavior (hlen : g.transfers.toList.length < 2 ^ 64)
    (ht : t ∈ g.transfers.toList) :
    0 ≤ (g.behavior t.customer).score ∧ (g.behavior t.customer).score ≤ 1 := by
  have hshort := length_purchases_lt hlen t.customer
  obtain ⟨hrate, hrate_le⟩ := fraudRate_bounds hshort
  obtain ⟨hvariety, hvariety_le⟩ := diversity_bounds hshort (length_purchases_pos ht)
  refine ⟨le_trans hrate.zero_le (le_larger_left (not_isNaN_of_isFinite hrate.isFinite)), ?_⟩
  rw [Graph.behavior]
  dsimp only
  rcases larger_eq_or (fraudRate (g.purchases t.customer))
    (1 - diversity (g.purchases t.customer)) with heq | heq <;> rw [heq]
  · exact hrate_le
  · exact one_sub_le_one hvariety.zero_le hvariety_le

theorem score_of_judgment? (hindexed : g.Indexed) (hc : c.check = .ok ())
    (hlen : g.transfers.toList.length < 2 ^ 64) (ht : t ∈ g.transfers.toList)
    (h : c.judgment? g t = some v) : 0 ≤ v.score ∧ v.score ≤ 1 := by
  rw [Settings.judgment?, Option.orElse_eq_some, Option.orElse_eq_some] at h
  rcases h with h | ⟨-, h | ⟨-, h⟩⟩
  · exact score_of_clusterVerdict? hindexed hc hlen h
  · exact score_of_merchantVerdict? hlen h
  · have hv : v = g.behavior t.customer := by
      split at h
      · exact eq_behavior_of_customerVerdict? h
      · exact (Option.some.inj h).symm
    rw [hv]
    exact score_behavior hlen ht

end Analyses

section Batches

variable {c : Settings} {records : List Record}

theorem tells_detect (hc : c.check = .ok ()) (bands : Bands) (hlen : records.length < 2 ^ 64) :
    ∃ fs, c.detect bands records = .found fs ∧
      Tells bands (Graph.ofRecords records).transfers.toList (c.judgment? (.ofRecords records))
        fs := by
  have hthreshold : 0 < c.merchantThreshold :=
    of_decide_eq_true (Fault.of_require (Fault.of_require_bind hc).2)
  refine ⟨_, detect_eq hc bands records, tells_findings (Graph.indexed_ofRecords records) bands
    (not_isNaN_of_lt hthreshold).2 (Graph.nodup_records_ofRecords records) ?_⟩
  by_cases hlimited : c.Limited
  · simp only [if_pos hlimited]
    exact tells_customerFindings hlimited bands ((length_transfers_le records).trans_lt hlen)
  · simp only [if_neg hlimited]
    exact tells_customerFindings_of_not_limited hlimited bands _

theorem score_of_detect (hc : c.check = .ok ()) {bands : Bands} (hlen : records.length < 2 ^ 64)
    {fs : List Finding} (h : c.detect bands records = .found fs) :
    ∀ f ∈ fs, 0 ≤ f.score ∧ f.score ≤ 1 := by
  obtain ⟨fs', hfs', htells⟩ := tells_detect hc bands hlen
  obtain rfl := Outcome.found.inj (h.symm.trans hfs')
  intro f hf
  obtain ⟨t, ht, v, hv, rfl⟩ := (htells f).1 hf
  exact score_of_judgment? (Graph.indexed_ofRecords records) hc
    ((length_transfers_le records).trans_lt hlen) ht hv

theorem mem_iff_of_tells {bands : Bands} {judge : Transfer → Option Verdict} {fs : List Finding}
    (h : Tells bands (Graph.ofRecords records).transfers.toList judge fs) (f : Finding) :
    f ∈ fs ↔ ∃ r t v, records[f.record]? = some r ∧
      Transfer.ofRecord? (r, f.record) = some t ∧ judge t = some v ∧ f = v.finding bands t := by
  rw [h f]
  constructor
  · rintro ⟨t, ht, v, hv, rfl⟩
    obtain ⟨r, hr, hmade⟩ := mem_transfers_ofRecords.1 ht
    exact ⟨r, t, v, hr, hmade, hv, rfl⟩
  · rintro ⟨r, t, v, hr, hmade, hv, hf⟩
    have hrecord : t.record = f.record := record_of_ofRecord? hmade
    rw [← hrecord] at hr hmade
    exact ⟨t, mem_transfers_ofRecords.2 ⟨r, hr, hmade⟩, v, hv, hf⟩

end Batches

end LedgerWatch.Network
