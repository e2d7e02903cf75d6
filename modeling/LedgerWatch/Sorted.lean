namespace LedgerWatch.Sorted

variable {κ υ α : Type} [LT κ] [DecidableLT κ] [DecidableEq κ]

/-- Changes what stands at a key, or puts it in at its place. -/
def alter (key : κ) (change : Option υ → υ) : List (κ × υ) → List (κ × υ)
  | [] => [(key, change none)]
  | (k, v) :: rest =>
    if key < k then (key, change none) :: (k, v) :: rest
    else if key = k then (k, change (some v)) :: rest
    else (k, v) :: alter key change rest

/-- The members of a list by key, in list order; a member without a key is left out. -/
def groupBy (key : α → Option κ) (xs : List α) : List (κ × List α) :=
  xs.foldr (fun x groups =>
    match key x with
    | none => groups
    | some k => alter k (fun members => x :: members.getD []) groups) []

/-- Counts that are raised by one at each of some keys, one key after another. -/
def raise (counts : List (κ × Nat)) (keys : List κ) : List (κ × Nat) :=
  keys.foldl (fun counts k => alter k (fun n => n.getD 0 + 1) counts) counts

/-- How often each key occurs. -/
def count (keys : List κ) : List (κ × Nat) := raise [] keys

/-- How often each key occurs, where some have a count from the start. -/
def countAmong (all keys : List κ) : List (κ × Nat) := raise (all.map fun k => (k, 0)) keys

/-- A list in increasing order, each member once. -/
def distinct (keys : List κ) : List κ := (count keys).map Prod.fst

end LedgerWatch.Sorted
