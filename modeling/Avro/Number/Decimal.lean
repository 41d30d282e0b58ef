import Avro.Text.Basic

/-!
# Reading integers

An optional sign and decimal digits, within the range of 64-bit integers.
-/

set_option autoImplicit false

namespace Avro.Number

inductive IntReading where
  | value (number : Int)
  | tooLarge
  | tooSmall
  | malformed
deriving DecidableEq, Repr

def maxInt64 : Int := 9223372036854775807

def minInt64 : Int := -9223372036854775808

def addDigit? (number : Nat) : Cell → Option Nat
  | .scalar char => if char.isDigit then some (number * 10 + (char.toNat - 48)) else none
  | .stray _ => none

def digits? (text : Text) : Option Nat :=
  if text.isEmpty then none else text.foldlM addDigit? 0

def takeSign : Text → Bool × Text
  | .scalar '-' :: rest => (true, rest)
  | .scalar '+' :: rest => (false, rest)
  | text => (false, text)

def readInt64 (text : Text) : IntReading :=
  let (negative, rest) := takeSign text
  match digits? rest with
  | none => .malformed
  | some number =>
    if negative then
      if -(number : Int) < minInt64 then .tooSmall else .value (-(number : Int))
    else if maxInt64 < (number : Int) then .tooLarge
    else .value number

def IntReading.value? : IntReading → Option Int
  | .value number => some number
  | _ => none

def IntReading.clamped : IntReading → Int
  | .value number => number
  | .tooLarge => maxInt64
  | .tooSmall => minInt64
  | .malformed => 0

/-!
## Binary floating point

A double is kept exactly, as a sign, a mantissa and an exponent of two. Rounding a quotient to a
double is integer arithmetic: to nearest, and to the even mantissa on a tie.
-/

/-- A double: `mantissa * 2 ^ exponent` with a sign, an infinity, or no number at all. -/
inductive Double where
  | finite (negative : Bool) (mantissa : Nat) (exponent : Int)
  | infinite (negative : Bool)
  | undefined
deriving DecidableEq, Repr

def roundDiv (numerator denominator : Nat) : Nat :=
  let quotient := numerator / denominator
  let twice := 2 * (numerator % denominator)
  if twice < denominator then quotient
  else if denominator < twice then quotient + 1
  else if quotient % 2 = 0 then quotient else quotient + 1

def unitExponent (numerator denominator : Nat) : Int :=
  let guess : Int := (numerator.log2 : Int) - (denominator.log2 : Int)
  let floorLog : Int :=
    if 0 ≤ guess then
      if denominator * Nat.pow 2 guess.toNat ≤ numerator then guess else guess - 1
    else if denominator ≤ numerator * Nat.pow 2 (-guess).toNat then guess
    else guess - 1
  max (-1074) (floorLog - 52)

def Double.ofQuotient (negative : Bool) (numerator denominator : Nat) : Double :=
  if numerator = 0 then .finite negative 0 (-1074)
  else
    let exponent := unitExponent numerator denominator
    let mantissa :=
      if 0 ≤ exponent then roundDiv numerator (denominator * Nat.pow 2 exponent.toNat)
      else roundDiv (numerator * Nat.pow 2 (-exponent).toNat) denominator
    let (mantissa, exponent) :=
      if mantissa = Nat.pow 2 53 then (Nat.pow 2 52, exponent + 1) else (mantissa, exponent)
    if 971 < exponent then .infinite negative else .finite negative mantissa exponent

def Double.ofDecimal (negative : Bool) (digits : Nat) (exponent : Int) : Double :=
  let magnitude : Int := (Nat.toDigits 10 digits).length + exponent
  if digits = 0 then .finite negative 0 (-1074)
  else if 310 < magnitude then .infinite negative
  else if magnitude < -330 then .finite negative 0 (-1074)
  else if 0 ≤ exponent then ofQuotient negative (digits * Nat.pow 10 exponent.toNat) 1
  else ofQuotient negative digits (Nat.pow 10 (-exponent).toNat)

def Double.truncate : Double → Int
  | .finite negative mantissa exponent =>
    let magnitude :=
      if 0 ≤ exponent then mantissa * Nat.pow 2 exponent.toNat else mantissa / Nat.pow 2 (-exponent).toNat
    if negative then -(magnitude : Int) else magnitude
  | _ => 0

def Double.isIntegral : Double → Bool
  | .finite _ mantissa exponent => 0 ≤ exponent || mantissa % Nat.pow 2 (-exponent).toNat = 0
  | _ => false

def Double.isZero : Double → Bool
  | .finite _ mantissa _ => mantissa = 0
  | _ => false

def Double.isBelowZero : Double → Bool
  | .finite negative mantissa _ => negative && mantissa ≠ 0
  | .infinite negative => negative
  | .undefined => false

def Double.isAboveOne : Double → Bool
  | .finite negative mantissa exponent =>
    !negative &&
      (if 0 ≤ exponent then 1 < mantissa * Nat.pow 2 exponent.toNat else Nat.pow 2 (-exponent).toNat < mantissa)
  | .infinite negative => !negative
  | .undefined => false

def Double.one : Double := .ofQuotient false 1 1

def Double.zero : Double := .ofQuotient false 0 1

/-!
## Decimal literals

Digits with at most one point among them, an optional sign in front and an optional exponent
behind. A literal reads as the nearest double; one that is too large for a double is refused.
-/

def isDigitCell : Cell → Bool
  | .scalar char => char.isDigit
  | .stray _ => false

structure Literal where
  negative : Bool
  digits : Nat
  exponent : Int
deriving DecidableEq, Repr

def readExponent? : Text → Option Int
  | [] => some 0
  | cell :: rest =>
    if cell.isChar 'e' || cell.isChar 'E' then
      let (negative, digits) := takeSign rest
      (digits? digits).map fun number => if negative then -(number : Int) else number
    else none

def readLiteral? (text : Text) : Option Literal :=
  let (negative, rest) := takeSign text
  let whole := rest.takeWhile isDigitCell
  let rest := rest.dropWhile isDigitCell
  let (fraction, rest) :=
    match rest with
    | .scalar '.' :: after => (after.takeWhile isDigitCell, after.dropWhile isDigitCell)
    | _ => ([], rest)
  match digits? (whole ++ fraction), readExponent? rest with
  | some digits, some exponent => some ⟨negative, digits, exponent - fraction.length⟩
  | _, _ => none

def Literal.toDouble (literal : Literal) : Double :=
  .ofDecimal literal.negative literal.digits literal.exponent

def readSpecial? (text : Text) : Option Double :=
  let (negative, rest) := takeSign text
  let word : Text := rest.map fun
    | .scalar char => .scalar char.toLower
    | cell => cell
  if word = "inf" || word = "infinity" then some (.infinite negative)
  else if word = "nan" && rest = text then some .undefined
  else none

def readDouble? (text : Text) : Option Double :=
  match (readLiteral? text).map Literal.toDouble with
  | some (.finite negative mantissa exponent) => some (.finite negative mantissa exponent)
  | _ => none

end Avro.Number
