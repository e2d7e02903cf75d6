import LedgerWatch.Record.Basic
import LedgerWatch.Table
import LedgerWatch.Json.Decode

namespace LedgerWatch

inductive Feature
  | amount
  | fraudScore
  | balance
  deriving DecidableEq, Repr

namespace Feature

/-- The features in column order. -/
def all : List Feature := [.amount, .fraudScore, .balance]

def field : Feature → String
  | .amount => "amount"
  | .fraudScore => "fraud_score"
  | .balance => "balance"

end Feature

/-- What is done to the features before distances are taken. -/
inductive Scaling
  | none
  | standard
  deriving DecidableEq, Repr

namespace Scaling

def names : List (String × Scaling) := [("none", .none), ("standard", .standard)]

def name : Scaling → String
  | .none => "none"
  | .standard => "standard"

def ofJson? (j : Json) : Option Scaling := j.choice? names

def toJson (s : Scaling) : Json := .string s.name

end Scaling

def Record.feature? (r : Record) (f : Feature) : Option Float := r.numeric? f.field

def Record.features (r : Record) : List Float :=
  Feature.all.map fun f => (r.feature? f).getD Binary64.nan

def featureTable (records : List Record) : Table :=
  ⟨Feature.all.length, (records.map Record.features).toArray⟩

def scaledFeatures (records : List Record) : Scaling → Table
  | .none => featureTable records
  | .standard => (featureTable records).standardize

end LedgerWatch
