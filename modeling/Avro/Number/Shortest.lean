import Avro.Number.Decimal

/-!
# Shortest decimals

The fewest significant digits that read back as a double, and of those the nearest to it. For each
digit count only the two neighbours of the value on that decimal grid can lie in the interval of
reals that round to it.
-/

set_option autoImplicit false

namespace Avro.Number

/-- A positive decimal `0.d₁d₂… * 10 ^ point`. -/
structure Digits where
  digits : List Char
  point : Int
deriving DecidableEq, Repr

structure Ratio where
  numerator : Nat
  denominator : Nat
deriving DecidableEq, Repr

def Ratio.scaled (factor base : Nat) (exponent : Int) : Ratio :=
  if 0 ≤ exponent then ⟨factor * Nat.pow base exponent.toNat, 1⟩
  else ⟨factor, Nat.pow base (-exponent).toNat⟩

def Ratio.below (left right : Ratio) : Bool :=
  left.numerator * right.denominator < right.numerator * left.denominator

def decimalPoint (value : Ratio) (start : Int) : Nat → Int
  | 0 => start
  | steps + 1 =>
    if value.below (.scaled 1 10 start) then start else decimalPoint value (start + 1) steps

def Ratio.distance (left right : Ratio) : Ratio :=
  let a := left.numerator * right.denominator
  let b := right.numerator * left.denominator
  ⟨if a ≤ b then b - a else a - b, left.denominator * right.denominator⟩

def significant (number : Nat) : List Char :=
  ((Nat.toDigits 10 number).reverse.dropWhile (· == '0')).reverse

/-- The best decimal with a digit count, if one reads back. `least` and `most` bound the reals that
round to the value; they do so themselves iff `closed`. -/
def withDigits? (value least most : Ratio) (closed : Bool) (point : Int) (count : Nat) :
    Option Digits :=
  let grid (number : Nat) : Ratio := .scaled number 10 (point - count)
  let inside (number : Nat) : Bool :=
    let at_ := grid number
    if closed then !at_.below least && !most.below at_
    else least.below at_ && at_.below most
  let unit := grid 1
  let lower := value.numerator * unit.denominator / (value.denominator * unit.numerator)
  let upper := lower + 1
  let make (number : Nat) : Digits :=
    ⟨significant number, point - count + (Nat.toDigits 10 number).length⟩
  match inside lower, inside upper with
  | false, false => none
  | true, false => some (make lower)
  | false, true => some (make upper)
  | true, true =>
    let low := value.distance (grid lower)
    let high := value.distance (grid upper)
    if low.below high then some (make lower)
    else if high.below low then some (make upper)
    else if lower % 2 = 0 then some (make lower) else some (make upper)

def shortest (mantissa : Nat) (exponent : Int) : Digits :=
  let value := Ratio.scaled (4 * mantissa) 2 (exponent - 2)
  let gap := if mantissa = Nat.pow 2 52 && exponent ≠ -1074 then 1 else 2
  let least := Ratio.scaled (4 * mantissa - gap) 2 (exponent - 2)
  let most := Ratio.scaled (4 * mantissa + 2) 2 (exponent - 2)
  let bits : Int := (mantissa.log2 : Int) + exponent
  let point := decimalPoint value (bits * 30103 / 100000 - 1) 5
  ((List.range 17).findSome? fun index =>
    withDigits? value least most (mantissa % 2 = 0) point (index + 1)).getD ⟨[], 0⟩

def exponentText (exponent : Int) : Text :=
  let digits := Text.ofNat exponent.natAbs
  (if exponent < 0 then ("e-" : Text) else "e+") ++
    (if exponent.natAbs < 10 then [.scalar '0'] else []) ++ digits

def Digits.render (decimal : Digits) : Text :=
  let digits : Text := decimal.digits.map Cell.scalar
  let zeros (count : Nat) : Text := List.replicate count (.scalar '0')
  let exponent := decimal.point - 1
  if exponent < -4 || 6 ≤ exponent then
    let fraction := digits.drop 1
    digits.take 1 ++ (if fraction.isEmpty then [] else .scalar '.' :: fraction) ++
      exponentText exponent
  else if decimal.point ≤ 0 then "0." ++ zeros (-decimal.point).toNat ++ digits
  else
    let whole := decimal.point.toNat
    if digits.length ≤ whole then digits ++ zeros (whole - digits.length)
    else digits.take whole ++ "." ++ digits.drop whole

def Double.render : Double → Text
  | .infinite true => "-Inf"
  | .infinite false => "+Inf"
  | .undefined => "NaN"
  | .finite negative mantissa exponent =>
    (if negative then [.scalar '-'] else []) ++
      (if mantissa = 0 then [.scalar '0'] else (shortest mantissa exponent).render)

end Avro.Number
