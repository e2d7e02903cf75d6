import LedgerWatch.Finding.Basic
import LedgerWatch.Json.Decode
import LedgerWatch.Json.Lexer

namespace LedgerWatch

def pairJson (p : Float × Float) : Json := .array [.ofFloat p.1, .ofFloat p.2]

namespace FieldScore

def toJson (s : FieldScore) : Json :=
  .object [("field", .string s.field), ("value", .ofFloat s.value), ("z_score", .ofFloat s.zScore),
    ("expected_range", pairJson s.expected)]

def ofJson? (j : Json) : Option FieldScore := do
  let fs ← j.fields? ["field", "value", "z_score", "expected_range"]
  return {
    field := ← fs.required "field" Json.string?
    value := ← fs.required "value" Json.float?
    zScore := ← fs.required "z_score" Json.float?
    expected := ← fs.required "expected_range" (Json.pair? Json.float?) }

end FieldScore

namespace Evidence

def kind : Evidence → String
  | .isolation .. => "isolation"
  | .localOutlier .. => "local_outlier"
  | .similarity .. => "one_class"
  | .contextual .. => "contextual"
  | .rolling .. => "rolling"
  | .seasonal .. => "seasonal"
  | .trend .. => "trend"
  | .fraudCluster .. => "fraud_cluster"
  | .merchantRate .. => "merchant_rate"
  | .customerBehavior .. => "customer_behavior"

def members : Evidence → List (String × Json)
  | .isolation path trees => [("average_path_length", .ofFloat path), ("n_trees", .ofNat trees)]
  | .localOutlier factor density neighbors =>
    [("lof", .ofFloat factor), ("lrd", .ofFloat density), ("n_neighbors", .ofNat neighbors)]
  | .similarity mean decision =>
    [("mean_similarity", .ofFloat mean), ("decision", .ofFloat decision)]
  | .contextual grouping group size scores =>
    [("group_by", .string grouping.name), ("group", .string group), ("group_size", .ofNat size),
      ("z_scores", .array (scores.map FieldScore.toJson))]
  | .rolling mean std z direction =>
    [("window_mean", .ofFloat mean), ("window_std", .ofFloat std), ("z_score", .ofFloat z),
      ("direction", .string direction.name)]
  | .seasonal month expected z =>
    [("month", .ofNat month), ("expected_range", pairJson expected), ("z_score", .ofFloat z)]
  | .trend position predicted residual threshold =>
    [("position", .ofNat position), ("predicted", .ofFloat predicted),
      ("residual", .ofFloat residual), ("threshold", .ofFloat threshold)]
  | .fraudCluster cluster size fraudEdges risk nodes =>
    [("cluster_id", .ofNat cluster), ("cluster_size", .ofNat size),
      ("fraud_edges", .ofNat fraudEdges), ("cluster_risk", .ofFloat risk),
      ("nodes", .array (nodes.map Json.string))]
  | .merchantRate merchant rate amount z =>
    [("merchant_id", .string merchant), ("fraud_rate", .ofFloat rate),
      ("avg_amount", .ofFloat amount), ("z_score", .ofFloat z)]
  | .customerBehavior customer rate diversity =>
    [("customer_id", .string customer), ("fraud_rate", .ofFloat rate),
      ("merchant_diversity", .ofFloat diversity)]

def toJson (e : Evidence) : Json := .object (("kind", .string e.kind) :: e.members)

/-- Months are read as 32-bit words. -/
def month? (j : Json) : Option Nat := j.nat?.filter (· < UInt32.size)

/-- One of a set of names. Beside a name an empty object does as well as null. -/
def choice? {α : Type} (names : List (String × α)) : Json → Option α :=
  Json.choiceWith? Json.isNullOrEmpty names

/-- The evidence of a kind, from what is written beside the kind. -/
def read? (kind : String) (body : Json) : Option Evidence :=
  let float (fs : Json.Fields) (name : String) := fs.required name Json.float?
  let nat (fs : Json.Fields) (name : String) := fs.required name Json.nat?
  let text (fs : Json.Fields) (name : String) := fs.required name Json.string?
  match kind with
  | "isolation" => do
    let fs ← body.fields? ["average_path_length", "n_trees"]
    return .isolation (← float fs "average_path_length") (← nat fs "n_trees")
  | "local_outlier" => do
    let fs ← body.fields? ["lof", "lrd", "n_neighbors"]
    return .localOutlier (← float fs "lof") (← float fs "lrd") (← nat fs "n_neighbors")
  | "one_class" => do
    let fs ← body.fields? ["mean_similarity", "decision"]
    return .similarity (← float fs "mean_similarity") (← float fs "decision")
  | "contextual" => do
    let fs ← body.fields? ["group_by", "group", "group_size", "z_scores"]
    return .contextual (← fs.required "group_by" (choice? Grouping.names)) (← text fs "group")
      (← nat fs "group_size") (← fs.required "z_scores" (Json.list? FieldScore.ofJson?))
  | "rolling" => do
    let fs ← body.fields? ["window_mean", "window_std", "z_score", "direction"]
    return .rolling (← float fs "window_mean") (← float fs "window_std") (← float fs "z_score")
      (← fs.required "direction" (choice? Direction.names))
  | "seasonal" => do
    let fs ← body.fields? ["month", "expected_range", "z_score"]
    return .seasonal (← fs.required "month" month?)
      (← fs.required "expected_range" (Json.pair? Json.float?)) (← float fs "z_score")
  | "trend" => do
    let fs ← body.fields? ["position", "predicted", "residual", "threshold"]
    return .trend (← nat fs "position") (← float fs "predicted") (← float fs "residual")
      (← float fs "threshold")
  | "fraud_cluster" => do
    let fs ← body.fields? ["cluster_id", "cluster_size", "fraud_edges", "cluster_risk", "nodes"]
    return .fraudCluster (← nat fs "cluster_id") (← nat fs "cluster_size") (← nat fs "fraud_edges")
      (← float fs "cluster_risk") (← fs.required "nodes" (Json.list? Json.string?))
  | "merchant_rate" => do
    let fs ← body.fields? ["merchant_id", "fraud_rate", "avg_amount", "z_score"]
    return .merchantRate (← text fs "merchant_id") (← float fs "fraud_rate")
      (← float fs "avg_amount") (← float fs "z_score")
  | "customer_behavior" => do
    let fs ← body.fields? ["customer_id", "fraud_rate", "merchant_diversity"]
    return .customerBehavior (← text fs "customer_id") (← float fs "fraud_rate")
      (← float fs "merchant_diversity")
  | _ => none

def ofJson? : Json → Option Evidence
  | .object members =>
    match members.partition fun m => m.1 == "kind" with
    | ([(_, .string kind)], rest) => read? kind (.object rest)
    | _ => none
  | .array (.string kind :: items) => read? kind (.array items)
  | _ => none

end Evidence

namespace Finding

def toJson (f : Finding) : Json :=
  .object [("record_index", .ofNat f.record), ("score", .ofFloat f.score),
    ("method", .string f.method.name), ("severity", .string f.severity.name),
    ("context", f.evidence.toJson)]

def fieldNames : List String := ["record_index", "score", "method", "severity", "context"]

def ofJson? (j : Json) : Option Finding := do
  let fs ← j.fields? fieldNames
  return {
    record := ← fs.required "record_index" Json.nat?
    score := ← fs.required "score" Json.float?
    method := ← fs.required "method" (Json.choice? Method.names)
    severity := ← fs.required "severity" (Json.choice? Severity.names)
    evidence := ← fs.required "context" Evidence.ofJson? }

def read? (text : String) : Option Finding :=
  (Json.readWanted? (.ofNames fieldNames) text).bind ofJson?

end Finding

end LedgerWatch
