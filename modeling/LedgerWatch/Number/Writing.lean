import LedgerWatch.Number.Shortest

namespace LedgerWatch.Decimal

/-- `positional p` says whether a number whose point stands after `p` digits is written without
an exponent. -/
structure Style where
  positional : Int → Bool
  wholeTail : String
  exponentPlus : String
  tie : Tie

/-- Never an exponent, and nothing after a whole number. -/
def Style.plain : Style := ⟨fun _ => true, "", "", .up⟩

/-- An exponent from `1e16` on and below `1e-4`; a whole number shows its place. -/
def Style.debug : Style := ⟨fun p => -3 ≤ p && p ≤ 16, ".0", "", .up⟩

def zeros (n : Nat) : List Char := List.replicate n '0'

/-- Digits with the point after the first `p` of them. -/
def withPoint (style : Style) (digits : List Char) (p : Int) : List Char :=
  if p ≤ 0 then '0' :: '.' :: zeros (-p).toNat ++ digits
  else if p.toNat < digits.length then digits.take p.toNat ++ '.' :: digits.drop p.toNat
  else digits ++ zeros (p.toNat - digits.length) ++ style.wholeTail.toList

/-- One digit before the point and a power of ten. -/
def withExponent (style : Style) (digits : List Char) (p : Int) : List Char :=
  let fraction := if digits.length ≤ 1 then [] else '.' :: digits.drop 1
  let exponent := p - 1
  let sign := if exponent < 0 then ['-'] else style.exponentPlus.toList
  digits.take 1 ++ fraction ++ 'e' :: sign ++ Nat.toDigits 10 exponent.natAbs

def signed (negative : Bool) (text : List Char) : String :=
  String.ofList (if negative then '-' :: text else text)

/-- The text of a number that is no multiple of a power of two, if it is none. -/
def special? (x : Float) : Option String :=
  if x.isNaN then some "NaN"
  else if x.isFinite then none
  else some (if x < 0 then "-inf" else "inf")

/-- The shortest text of `x` in a style. -/
def Style.write (style : Style) (x : Float) : String :=
  (special? x).getD <|
    let d := Binary64.parts x
    let s := shortest style.tie d.significand d.exponent
    let digits := Nat.toDigits 10 s.digits
    let p := digits.length + s.exponent
    signed d.negative
      (if style.positional p then withPoint style digits p else withExponent style digits p)

/-- `|x| * 10 ^ places`, rounded to the nearest whole number, an exact half to the even one. -/
def roundedPlaces (places : Nat) (d : Binary64.Parts) : Nat :=
  let scaled := d.significand * Nat.pow 10 places
  if 0 ≤ d.exponent then scaled * Nat.pow 2 d.exponent.toNat
  else Binary64.roundDiv scaled (Nat.pow 2 (-d.exponent).toNat)

/-- `x` with exactly `places` digits after the point; the sign of a rounded zero stays. -/
def fixed (places : Nat) (x : Float) : String :=
  (special? x).getD <|
    let d := Binary64.parts x
    let digits := Nat.toDigits 10 (roundedPlaces places d)
    let padded := zeros (places + 1 - digits.length) ++ digits
    let whole := padded.length - places
    signed d.negative
      (padded.take whole ++ if places = 0 then [] else '.' :: padded.drop whole)

end LedgerWatch.Decimal
