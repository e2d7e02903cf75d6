namespace LedgerWatch.Binary64

/-- The sign bit, and `m`, `q` with `|x| = m * 2 ^ q`; meant for finite doubles. -/
structure Parts where
  negative : Bool
  significand : Nat
  exponent : Int
  deriving DecidableEq, Repr

def parts (x : Float) : Parts :=
  let bits := x.toBits.toNat
  let biased : Nat := bits / Nat.pow 2 52 % Nat.pow 2 11
  let fraction : Nat := bits % Nat.pow 2 52
  { negative := bits / Nat.pow 2 63 == 1
    significand := if biased = 0 then fraction else Nat.pow 2 52 + fraction
    exponent := if biased = 0 then -1074 else (biased : Int) - 1075 }

def nan : Float := 0.0 / 0.0

def infinity : Float := 1.0 / 0.0

def infinityBits : Nat := 0x7FF0000000000000

/-- Division rounded to the nearest whole number, an exact half to the even one. -/
def roundDiv (n d : Nat) : Nat :=
  let quotient := n / d
  let twice := 2 * (n % d)
  if twice < d then quotient else if d < twice then quotient + 1 else quotient + quotient % 2

def ofDyadic (n k : Nat) : Float :=
  if n = 0 then 0
  else
    let unit : Int := max ((n.log2 : Int) - 52 - k) (-1074)
    let shift : Int := k + unit
    let m := if shift ≤ 0 then n * Nat.pow 2 (-shift).toNat else roundDiv n (Nat.pow 2 shift.toNat)
    Float.ofBits (UInt64.ofNat (min ((unit + 1074).toNat * Nat.pow 2 52 + m) infinityBits))

/-- The whole part of `|x| * 2 ^ p`. -/
def toFixed (p : Nat) (x : Float) : Nat :=
  let d := parts x
  let e := d.exponent + p
  if 0 ≤ e then d.significand * Nat.pow 2 e.toNat else d.significand / Nat.pow 2 (-e).toNat

/-- The least count not below `x`, taken in the range of 64-bit words. -/
def ceilCount (x : Float) : Nat :=
  let floor := x.toUInt64
  if floor.toFloat < x then floor.toNat + 1 else floor.toNat

/-- The smaller of two numbers; a missing one gives way to the other. -/
def smaller (x y : Float) : Float :=
  if x.isNaN then y else if y < x then y else x

def larger (x y : Float) : Float :=
  if x.isNaN then y else if x < y then y else x

def clamp (x lo hi : Float) : Float :=
  let raised := if x < lo then lo else x
  if hi < raised then hi else raised

/-- A whole-number key of the total order on doubles: negative ones in reverse before positive
ones, numbers without a value at the ends. -/
def totalOrderKey (x : Float) : Int :=
  let bits := x.toBits.toNat
  if bits < Nat.pow 2 63 then bits else -((bits - Nat.pow 2 63 : Nat) : Int) - 1

theorem compare_self_of_comparable {u v : Float.Model.UnpackedFloat} (h : u.compare v ≠ none) :
    u.compare u = some .eq := by
  cases u with
  | notANumber => exact absurd rfl h
  | infinity s => cases s <;> rfl
  | zero s => cases s <;> rfl
  | finite s m e hm =>
    have hself : (compare e e).then (compare m m) = .eq := by
      rw [Std.ReflOrd.compare_self, Std.ReflOrd.compare_self]
      rfl
    cases s with
    | negative => exact congrArg (fun o : Ordering => some o.swap) hself
    | positive => exact congrArg some hself

/-- A number that is below another one has a value. -/
theorem le_self_of_lt {x y : Float} (h : x < y) : x ≤ x := by
  have hlt : x.toModel.unpack.lt y.toModel.unpack = true :=
    of_decide_eq_true (p := x.toModel < y.toModel) h
  have hcmp : x.toModel.unpack.compare x.toModel.unpack = some .eq := by
    apply compare_self_of_comparable (v := y.toModel.unpack)
    simp only [Float.Model.UnpackedFloat.lt, beq_iff_eq] at hlt
    simp [hlt]
  have hle : x.toModel.unpack.le x.toModel.unpack = true := by
    simp [Float.Model.UnpackedFloat.le, hcmp]
  exact decide_eq_true (p := x.toModel ≤ x.toModel) hle

end LedgerWatch.Binary64
