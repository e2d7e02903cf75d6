import LedgerWatch.Finding.Json
import LedgerWatch.Proofs.Json.Kept

namespace LedgerWatch

open Json

namespace Json

theorem Fields.required_of_lookup {α : Type} {fs : Fields} {name : String}
    {read : Json → Option α} {j : Json} {a : α} (hj : fs.lookup name = some j)
    (ha : read j = some a) : fs.required name read = some a := by
  rw [required, hj, Option.bind_some, ha]

theorem list?_map {α : Type} {read : Json → Option α} {write : α → Json} {xs : List α}
    (h : ∀ x ∈ xs, read (write x) = some x) : (array (xs.map write)).list? read = some xs := by
  show (xs.map write).mapM read = some xs
  induction xs with
  | nil => rfl
  | cons x xs ih =>
    obtain ⟨hx, hxs⟩ := List.forall_mem_cons.1 h
    rw [List.map_cons, List.mapM_cons, hx, ih hxs]
    rfl

end Json

section Pairs

variable {p : Float × Float}

theorem pair?_pairJson (hfst : p.1.isFinite = true) (hsnd : p.2.isFinite = true) :
    (pairJson p).pair? float? = some p := by
  simp [pairJson, pair?, float?_ofFloat hfst, float?_ofFloat hsnd]

theorem kept_pairJson (room : ℕ) (hfst : rereadFloat? p.1 = some p.1)
    (hsnd : rereadFloat? p.2 = some p.2) : Kept (room + 1) (pairJson p) :=
  kept_array (List.forall_mem_cons.2
    ⟨kept_ofFloat room hfst, List.forall_mem_singleton.2 (kept_ofFloat room hsnd)⟩)

end Pairs

namespace FieldScore

variable {s : FieldScore}

def floats (s : FieldScore) : List Float := [s.value, s.zScore, s.expected.1, s.expected.2]

theorem forall_mem_floats {P : Float → Prop} : (∀ x ∈ s.floats, P x) ↔
    P s.value ∧ P s.zScore ∧ P s.expected.1 ∧ P s.expected.2 := by
  simp [floats]

theorem ofJson?_toJson (h : ∀ x ∈ s.floats, x.isFinite = true) : ofJson? s.toJson = some s := by
  obtain ⟨hvalue, hscore, hlow, hhigh⟩ := forall_mem_floats.1 h
  simp only [ofJson?, Option.bind_eq_bind, Option.bind_eq_some_iff]
  exact ⟨_, fields?_object (by rfl) (by decide), _, Fields.required_of_lookup rfl rfl, _,
    Fields.required_of_lookup rfl (float?_ofFloat hvalue), _,
    Fields.required_of_lookup rfl (float?_ofFloat hscore), _,
    Fields.required_of_lookup rfl (pair?_pairJson hlow hhigh), rfl⟩

theorem kept_toJson (room : ℕ) (h : ∀ x ∈ s.floats, rereadFloat? x = some x) :
    Kept (room + 2) s.toJson := by
  obtain ⟨hvalue, hscore, hlow, hhigh⟩ := forall_mem_floats.1 h
  apply kept_object
  simp [kept_string, kept_ofFloat _ hvalue, kept_ofFloat _ hscore, kept_pairJson _ hlow hhigh]

end FieldScore

namespace Evidence

variable {e : Evidence}

def floats : Evidence → List Float
  | .isolation path _ => [path]
  | .localOutlier factor density _ => [factor, density]
  | .similarity mean decision => [mean, decision]
  | .contextual _ _ _ scores => scores.flatMap FieldScore.floats
  | .rolling mean std z _ => [mean, std, z]
  | .seasonal _ expected z => [expected.1, expected.2, z]
  | .trend _ predicted residual threshold => [predicted, residual, threshold]
  | .fraudCluster _ _ _ risk _ => [risk]
  | .merchantRate _ rate amount z => [rate, amount, z]
  | .customerBehavior _ rate diversity => [rate, diversity]

/-- All counts are 64-bit words, and a month is a 32-bit one. -/
def Sized : Evidence → Prop
  | .isolation _ trees => trees < UInt64.size
  | .localOutlier _ _ neighbors => neighbors < UInt64.size
  | .contextual _ _ size _ => size < UInt64.size
  | .seasonal month _ _ => month < UInt32.size
  | .trend position _ _ _ => position < UInt64.size
  | .fraudCluster cluster size fraudEdges _ _ =>
    cluster < UInt64.size ∧ size < UInt64.size ∧ fraudEdges < UInt64.size
  | _ => True

theorem size_le_size : UInt32.size ≤ UInt64.size := by decide

theorem month?_ofNat {month : ℕ} (h : month < UInt32.size) : month? (ofNat month) = some month := by
  rw [month?, nat?_ofNat (h.trans_le size_le_size), Option.filter_some]
  simp [h]

theorem choice?_grouping (g : Grouping) : choice? Grouping.names (.string g.name) = some g := by
  cases g <;> rfl

theorem choice?_direction (d : Direction) : choice? Direction.names (.string d.name) = some d := by
  cases d <;> rfl

theorem read?_members (hfloats : ∀ x ∈ e.floats, x.isFinite = true) (hsized : e.Sized) :
    read? e.kind (.object e.members) = some e := by
  cases e with
  | isolation path trees =>
    have hpath := List.forall_mem_singleton.1 hfloats
    simp only [kind, read?, Option.bind_eq_bind, Option.bind_eq_some_iff]
    exact ⟨_, fields?_object (by rfl) (by decide), _,
      Fields.required_of_lookup rfl (float?_ofFloat hpath), _,
      Fields.required_of_lookup rfl (nat?_ofNat hsized), rfl⟩
  | localOutlier factor density neighbors =>
    rw [floats, List.forall_mem_cons, List.forall_mem_singleton] at hfloats
    obtain ⟨hfactor, hdensity⟩ := hfloats
    simp only [kind, read?, Option.bind_eq_bind, Option.bind_eq_some_iff]
    exact ⟨_, fields?_object (by rfl) (by decide), _,
      Fields.required_of_lookup rfl (float?_ofFloat hfactor), _,
      Fields.required_of_lookup rfl (float?_ofFloat hdensity), _,
      Fields.required_of_lookup rfl (nat?_ofNat hsized), rfl⟩
  | similarity mean decision =>
    rw [floats, List.forall_mem_cons, List.forall_mem_singleton] at hfloats
    obtain ⟨hmean, hdecision⟩ := hfloats
    simp only [kind, read?, Option.bind_eq_bind, Option.bind_eq_some_iff]
    exact ⟨_, fields?_object (by rfl) (by decide), _,
      Fields.required_of_lookup rfl (float?_ofFloat hmean), _,
      Fields.required_of_lookup rfl (float?_ofFloat hdecision), rfl⟩
  | contextual grouping group size scores =>
    have hscores : ∀ s ∈ scores, FieldScore.ofJson? s.toJson = some s := fun s hs =>
      FieldScore.ofJson?_toJson fun x hx => hfloats x (List.mem_flatMap.2 ⟨s, hs, hx⟩)
    simp only [kind, read?, Option.bind_eq_bind, Option.bind_eq_some_iff]
    exact ⟨_, fields?_object (by rfl) (by decide), _,
      Fields.required_of_lookup rfl (choice?_grouping grouping), _,
      Fields.required_of_lookup rfl rfl, _,
      Fields.required_of_lookup rfl (nat?_ofNat hsized), _,
      Fields.required_of_lookup rfl (list?_map hscores), rfl⟩
  | rolling mean std z direction =>
    rw [floats, List.forall_mem_cons, List.forall_mem_cons, List.forall_mem_singleton] at hfloats
    obtain ⟨hmean, hstd, hz⟩ := hfloats
    simp only [kind, read?, Option.bind_eq_bind, Option.bind_eq_some_iff]
    exact ⟨_, fields?_object (by rfl) (by decide), _,
      Fields.required_of_lookup rfl (float?_ofFloat hmean), _,
      Fields.required_of_lookup rfl (float?_ofFloat hstd), _,
      Fields.required_of_lookup rfl (float?_ofFloat hz), _,
      Fields.required_of_lookup rfl (choice?_direction direction), rfl⟩
  | seasonal month expected z =>
    rw [floats, List.forall_mem_cons, List.forall_mem_cons, List.forall_mem_singleton] at hfloats
    obtain ⟨hlow, hhigh, hz⟩ := hfloats
    simp only [kind, read?, Option.bind_eq_bind, Option.bind_eq_some_iff]
    exact ⟨_, fields?_object (by rfl) (by decide), _,
      Fields.required_of_lookup rfl (month?_ofNat hsized), _,
      Fields.required_of_lookup rfl (pair?_pairJson hlow hhigh), _,
      Fields.required_of_lookup rfl (float?_ofFloat hz), rfl⟩
  | trend position predicted residual threshold =>
    rw [floats, List.forall_mem_cons, List.forall_mem_cons, List.forall_mem_singleton] at hfloats
    obtain ⟨hpredicted, hresidual, hthreshold⟩ := hfloats
    simp only [kind, read?, Option.bind_eq_bind, Option.bind_eq_some_iff]
    exact ⟨_, fields?_object (by rfl) (by decide), _,
      Fields.required_of_lookup rfl (nat?_ofNat hsized), _,
      Fields.required_of_lookup rfl (float?_ofFloat hpredicted), _,
      Fields.required_of_lookup rfl (float?_ofFloat hresidual), _,
      Fields.required_of_lookup rfl (float?_ofFloat hthreshold), rfl⟩
  | fraudCluster cluster size fraudEdges risk nodes =>
    obtain ⟨hcluster, hsize, hedges⟩ := hsized
    have hrisk := List.forall_mem_singleton.1 hfloats
    have hnodes : (array (nodes.map Json.string)).list? string? = some nodes :=
      list?_map fun _ _ => rfl
    simp only [kind, read?, Option.bind_eq_bind, Option.bind_eq_some_iff]
    exact ⟨_, fields?_object (by rfl) (by decide), _,
      Fields.required_of_lookup rfl (nat?_ofNat hcluster), _,
      Fields.required_of_lookup rfl (nat?_ofNat hsize), _,
      Fields.required_of_lookup rfl (nat?_ofNat hedges), _,
      Fields.required_of_lookup rfl (float?_ofFloat hrisk), _,
      Fields.required_of_lookup rfl hnodes, rfl⟩
  | merchantRate merchant rate amount z =>
    rw [floats, List.forall_mem_cons, List.forall_mem_cons, List.forall_mem_singleton] at hfloats
    obtain ⟨hrate, hamount, hz⟩ := hfloats
    simp only [kind, read?, Option.bind_eq_bind, Option.bind_eq_some_iff]
    exact ⟨_, fields?_object (by rfl) (by decide), _, Fields.required_of_lookup rfl rfl, _,
      Fields.required_of_lookup rfl (float?_ofFloat hrate), _,
      Fields.required_of_lookup rfl (float?_ofFloat hamount), _,
      Fields.required_of_lookup rfl (float?_ofFloat hz), rfl⟩
  | customerBehavior customer rate diversity =>
    rw [floats, List.forall_mem_cons, List.forall_mem_singleton] at hfloats
    obtain ⟨hrate, hdiversity⟩ := hfloats
    simp only [kind, read?, Option.bind_eq_bind, Option.bind_eq_some_iff]
    exact ⟨_, fields?_object (by rfl) (by decide), _, Fields.required_of_lookup rfl rfl, _,
      Fields.required_of_lookup rfl (float?_ofFloat hrate), _,
      Fields.required_of_lookup rfl (float?_ofFloat hdiversity), rfl⟩

theorem kind_not_mem_members (e : Evidence) : ∀ m ∈ e.members, m.1 ≠ "kind" := by
  cases e <;> simp [members]

theorem ofJson?_toJson (hfloats : ∀ x ∈ e.floats, x.isFinite = true) (hsized : e.Sized) :
    ofJson? e.toJson = some e := by
  -- the kind is taken out of the members, and none of these has its name
  have hsplit : (("kind", Json.string e.kind) :: e.members).partition (fun m => m.1 == "kind") =
      ([("kind", .string e.kind)], e.members) := by
    simpa [List.partition_eq_filter_filter, List.filter_eq_nil_iff, List.filter_eq_self] using
      fun n j hm => e.kind_not_mem_members (n, j) hm
  rw [toJson, ofJson?, hsplit]
  exact read?_members hfloats hsized

theorem kept_members (room : ℕ) (hfloats : ∀ x ∈ e.floats, rereadFloat? x = some x)
    (hsized : e.Sized) : ∀ m ∈ e.members, Kept (room + 3) m.2 := by
  cases e with
  | isolation path trees =>
    have hpath := List.forall_mem_singleton.1 hfloats
    simp [members, kept_ofFloat _ hpath, kept_ofNat _ hsized]
  | localOutlier factor density neighbors =>
    rw [floats, List.forall_mem_cons, List.forall_mem_singleton] at hfloats
    simp [members, kept_ofFloat _ hfloats.1, kept_ofFloat _ hfloats.2, kept_ofNat _ hsized]
  | similarity mean decision =>
    rw [floats, List.forall_mem_cons, List.forall_mem_singleton] at hfloats
    simp [members, kept_ofFloat _ hfloats.1, kept_ofFloat _ hfloats.2]
  | contextual grouping group size scores =>
    have hscores : Kept (room + 3) (array (scores.map FieldScore.toJson)) := by
      apply kept_array
      rw [List.forall_mem_map]
      exact fun s hs => s.kept_toJson room fun x hx =>
        hfloats x (List.mem_flatMap.2 ⟨s, hs, hx⟩)
    simp [members, kept_string, kept_ofNat _ hsized, hscores]
  | rolling mean std z direction =>
    rw [floats, List.forall_mem_cons, List.forall_mem_cons, List.forall_mem_singleton] at hfloats
    simp [members, kept_string, kept_ofFloat _ hfloats.1, kept_ofFloat _ hfloats.2.1,
      kept_ofFloat _ hfloats.2.2]
  | seasonal month expected z =>
    rw [floats, List.forall_mem_cons, List.forall_mem_cons, List.forall_mem_singleton] at hfloats
    simp [members, kept_ofNat _ (hsized.trans_le size_le_size),
      kept_pairJson _ hfloats.1 hfloats.2.1, kept_ofFloat _ hfloats.2.2]
  | trend position predicted residual threshold =>
    rw [floats, List.forall_mem_cons, List.forall_mem_cons, List.forall_mem_singleton] at hfloats
    simp [members, kept_ofNat _ hsized, kept_ofFloat _ hfloats.1, kept_ofFloat _ hfloats.2.1,
      kept_ofFloat _ hfloats.2.2]
  | fraudCluster cluster size fraudEdges risk nodes =>
    obtain ⟨hcluster, hsize, hedges⟩ := hsized
    have hrisk := List.forall_mem_singleton.1 hfloats
    have hnodes : Kept (room + 3) (array (nodes.map Json.string)) := by
      apply kept_array
      rw [List.forall_mem_map]
      exact fun _ _ => kept_string _ _
    simp [members, kept_ofNat _ hcluster, kept_ofNat _ hsize, kept_ofNat _ hedges,
      kept_ofFloat _ hrisk, hnodes]
  | merchantRate merchant rate amount z =>
    rw [floats, List.forall_mem_cons, List.forall_mem_cons, List.forall_mem_singleton] at hfloats
    simp [members, kept_string, kept_ofFloat _ hfloats.1, kept_ofFloat _ hfloats.2.1,
      kept_ofFloat _ hfloats.2.2]
  | customerBehavior customer rate diversity =>
    rw [floats, List.forall_mem_cons, List.forall_mem_singleton] at hfloats
    simp [members, kept_string, kept_ofFloat _ hfloats.1, kept_ofFloat _ hfloats.2]

theorem kept_toJson (room : ℕ) (hfloats : ∀ x ∈ e.floats, rereadFloat? x = some x)
    (hsized : e.Sized) : Kept (room + 4) e.toJson :=
  kept_object (List.forall_mem_cons.2
    ⟨kept_string _ _, kept_members room hfloats hsized⟩)

end Evidence

namespace Finding

variable {f : Finding}

/-- All doubles of a finding, those of its evidence included. -/
def floats (f : Finding) : List Float := f.score :: f.evidence.floats

def Sized (f : Finding) : Prop := f.record < UInt64.size ∧ f.evidence.Sized

theorem choice?_method (m : Method) : (Json.string m.name).choice? Method.names = some m := by
  cases m <;> rfl

theorem choice?_severity (s : Severity) :
    (Json.string s.name).choice? Severity.names = some s := by
  cases s <;> rfl

theorem method_name_injective : Function.Injective Method.name := by
  intro m n h
  have hchoice := choice?_method m
  rw [h, choice?_method] at hchoice
  exact (Option.some.inj hchoice).symm

theorem severity_name_injective : Function.Injective Severity.name := by
  intro s t h
  have hchoice := choice?_severity s
  rw [h, choice?_severity] at hchoice
  exact (Option.some.inj hchoice).symm

theorem ofJson?_toJson (hfloats : ∀ x ∈ f.floats, x.isFinite = true) (hsized : f.Sized) :
    ofJson? f.toJson = some f := by
  obtain ⟨hscore, hevidence⟩ := List.forall_mem_cons.1 hfloats
  simp only [ofJson?, Option.bind_eq_bind, Option.bind_eq_some_iff]
  exact ⟨_, fields?_object (by rfl) (by decide), _,
    Fields.required_of_lookup rfl (nat?_ofNat hsized.1), _,
    Fields.required_of_lookup rfl (float?_ofFloat hscore), _,
    Fields.required_of_lookup rfl (choice?_method f.method), _,
    Fields.required_of_lookup rfl (choice?_severity f.severity), _,
    Fields.required_of_lookup rfl (Evidence.ofJson?_toJson hevidence hsized.2), rfl⟩

theorem readWanted?_toJson (hfloats : ∀ x ∈ f.floats, rereadFloat? x = some x)
    (hsized : f.Sized) :
    readWanted? (.ofNames fieldNames) f.toJson.compact = some f.toJson ∧
      readWanted? (.ofNames fieldNames) f.toJson.pretty = some f.toJson := by
  obtain ⟨hscore, hevidence⟩ := List.forall_mem_cons.1 hfloats
  have hroom : maxDepth - 1 = 122 + 4 := rfl
  apply readWanted?_of_kept
  · simp [fieldNames]
  · rw [hroom]
    simp [kept_string, kept_ofNat _ hsized.1, kept_ofFloat _ hscore,
      Evidence.kept_toJson 122 hevidence hsized.2]

/-- A finding is read where it was written, in either layout, if each of its doubles is; written
once more it has the same text. A double that is read behind its own text is finite. -/
theorem read?_of_written (hsized : f.Sized) (hfloats : ∀ x ∈ f.floats, rereadFloat? x = some x) :
    ∀ write ∈ [Json.compact, Json.pretty], read? (write f.toJson) = some f ∧
      (read? (write f.toJson)).map (fun g => write g.toJson) = some (write f.toJson) := by
  obtain ⟨hcompact, hpretty⟩ := readWanted?_toJson hfloats hsized
  have hvalue := ofJson?_toJson (fun x hx => isFinite_of_rereadFloat? (hfloats x hx)) hsized
  have hread : ∀ write ∈ [Json.compact, Json.pretty], read? (write f.toJson) = some f := by
    rw [List.forall_mem_cons, List.forall_mem_singleton, read?, read?, hcompact, hpretty,
      Option.bind_some, hvalue]
    exact ⟨rfl, rfl⟩
  intro write hwrite
  rw [hread write hwrite]
  exact ⟨rfl, rfl⟩

/-- The last position, names in need of escapes, both zeros and two monitored fields. -/
theorem read?_of_written_contextual :
    let f : Finding := ⟨0xFFFFFFFFFFFFFFFF, 0.75, .contextual, .high, .contextual .state
      "\"N\\Y\"\n\x07" 3 [⟨"amount", -1250.5, 3.75, (-0.0, 2e10)⟩, ⟨"", 0.1, 0.0, (1e-7, 1)⟩]⟩
    f.Sized ∧ (∀ x ∈ f.floats, rereadFloat? x = some x) ∧
      ∀ write ∈ [Json.compact, Json.pretty], read? (write f.toJson) = some f ∧
        (read? (write f.toJson)).map (fun g => write g.toJson) = some (write f.toJson) := by
  intro f
  have hcount : 3 < UInt64.size := by decide
  have hsized : f.Sized := ⟨by decide, hcount⟩
  have hshort : ∀ x ∈ f.floats, HasShortLiteral x := by decide +kernel
  have hfloats : ∀ x ∈ f.floats, rereadFloat? x = some x := fun x hx =>
    rereadFloat?_of_short (hshort x hx)
  exact ⟨hsized, hfloats, read?_of_written hsized hfloats⟩

end Finding

end LedgerWatch
