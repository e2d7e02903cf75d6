import LedgerWatch.Json.Number
import LedgerWatch.Calendar.Timestamp
import LedgerWatch.Fault

namespace LedgerWatch

structure Record where
  fields : List (String × Json)

namespace Record

def empty : Record := ⟨[]⟩

/-- Sets a field: in place when it is there, at the end when it is new. -/
def set (r : Record) (name : String) (value : Json) : Record := ⟨Json.setMember name value r.fields⟩

def get? (r : Record) (name : String) : Option Json := r.fields.lookup name

def size (r : Record) : Nat := r.fields.length

def names (r : Record) : List String := r.fields.map Prod.fst

/-- The number written in a text with outer blanks, leading dollar signs and commas anywhere. -/
def numberInText? (s : List Char) : Option Float :=
  Decimal.number? (((Text.trim s).dropWhile (· = '$')).filter (· ≠ ','))

def numberOf? : Json → Option Float
  | .number n => some n.toFloat
  | .string s => numberInText? s.toList
  | _ => none

def numeric? (r : Record) (name : String) : Option Float :=
  ((r.get? name).bind numberOf?).filter Float.isFinite

def textOf? : Json → Option String
  | .string s => let t := Text.trimmed s; if t = "" then none else some t
  | .number n => some n.write
  | .bool b => some (if b then "true" else "false")
  | _ => none

/-- A field as a text that is not blank; numbers and truth values are written out. -/
def text? (r : Record) (name : String) : Option String := (r.get? name).bind textOf?

def amount? (r : Record) : Option Float := r.numeric? "amount"

def fraudScore? (r : Record) : Option Float := r.numeric? "fraud_score"

def balance? (r : Record) : Option Float := r.numeric? "balance"

def merchantCategory? (r : Record) : Option String := r.text? "merchant_category"

def merchantState? (r : Record) : Option String := r.text? "merchant_state"

def transactionType? (r : Record) : Option String := r.text? "transaction_type"

def merchantId? (r : Record) : Option String := r.text? "merchant_id"

def customerId? (r : Record) : Option String := r.text? "customer_id"

def transactionId? (r : Record) : Option String := r.text? "transaction_id"

def transactionDate? (r : Record) : Option Moment :=
  (r.text? "transaction_date").bind Calendar.moment?

def isAffirmative (s : String) : Bool :=
  ["1", "true", "yes"].contains (String.ofList ((Text.trim s.toList).map Char.toLower))

/-- Whether the record is flagged as fraud: by true, by the number one or by a word for it. -/
def isFraud (r : Record) : Bool :=
  match r.get? "is_fraud" with
  | some (.bool b) => b
  | some (.number n) => n.toFloat == 1
  | some (.string s) => isAffirmative s
  | _ => false

def ofJson? : Json → Except Fault Record
  | .object members => .ok ⟨members⟩
  | j => .error (.invalidInput ("record must be a JSON object, got " ++ j.kind))

/-- The records of an array; the first item that is no object is the one reported. -/
def listOfJson? : Json → Except Fault (List Record)
  | .array items => items.mapM ofJson?
  | j => .error (.invalidInput ("expected a JSON array of records, got " ++ j.kind))

def toJson (r : Record) : Json := .object r.fields

end Record

end LedgerWatch
