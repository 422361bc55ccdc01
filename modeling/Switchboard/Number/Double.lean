/-!
# Doubles

A double is a number of at most 53 binary digits times a power of two, an
infinity, or no number at all. A decimal is read as the nearest double, the
one with the even mantissa if two are equally near.
-/

namespace Switchboard

inductive Double
  /-- The number `mantissa * 2 ^ exponent`, with its sign. -/
  | finite (negative : Bool) (mantissa : Nat) (exponent : Int)
  | infinite (negative : Bool)
  | notNumber
  deriving DecidableEq, Repr

namespace Double

/-- Least exponent of a double. -/
def minExponent : Int := -1074

/-- Greatest exponent of a double. -/
def maxExponent : Int := 971

/-- The quotient rounded to the nearest natural number, ties to even. -/
def roundDiv (num den : Nat) : Nat :=
  let q := num / den
  let twice := 2 * (num % den)
  if twice < den then q
  else if den < twice then q + 1
  else q + q % 2

/-- The fraction times `2 ^ -exponent`. -/
def scale (num den : Nat) (exponent : Int) : Nat × Nat :=
  (num * Nat.pow 2 (-exponent).toNat, den * Nat.pow 2 exponent.toNat)

/-- Exponent for which a positive fraction has 53 binary digits before the
point, or the least exponent. -/
def exponentOf (num den : Nat) : Int :=
  let guess := (num.log2 : Int) - den.log2
  let (n, d) := scale num den guess
  max minExponent ((if n < d then guess - 1 else guess) - 52)

/-- The nearest double to a fraction. -/
def ofFraction (negative : Bool) (num den : Nat) : Double :=
  if num = 0 then finite negative 0 minExponent
  else
    let exponent := exponentOf num den
    let (n, d) := scale num den exponent
    let mantissa := roundDiv n d
    let (mantissa, exponent) :=
      if mantissa = Nat.pow 2 53 then (Nat.pow 2 52, exponent + 1) else (mantissa, exponent)
    if maxExponent < exponent then infinite negative else finite negative mantissa exponent

/-- The nearest double to `digits * 10 ^ exponent`. What is certainly too
great or too small is not computed. -/
def ofDecimal (negative : Bool) (digits : Nat) (exponent : Int) : Double :=
  let magnitude := (Nat.toDigits 10 digits).length + exponent
  if digits = 0 ∨ magnitude < -330 then finite negative 0 minExponent
  else if 310 < magnitude then infinite negative
  else ofFraction negative (digits * Nat.pow 10 exponent.toNat) (Nat.pow 10 (-exponent).toNat)

/-- The digits times a power of ten, where each of the two is rounded to a
double first and their product again. -/
def ofRounded (digits exponent : Nat) : Double :=
  match ofDecimal false digits 0, ofDecimal false 1 exponent with
  | finite _ m e, finite _ n f =>
    let (num, den) := scale (m * n) 1 (-(e + f))
    ofFraction false num den
  | _, _ => infinite false

def isInfinite : Double → Bool
  | infinite _ => true
  | _ => false

def isZero : Double → Bool
  | finite _ mantissa _ => mantissa = 0
  | _ => false

/-- Rounded to the nearest natural number below `bound`, halves up. Negative
numbers and what is no number become zero. -/
def toNatural? (bound : Nat) : Double → Option Nat
  | finite false mantissa exponent =>
    let n := mantissa * Nat.pow 2 (exponent + 1).toNat / Nat.pow 2 (-(exponent + 1)).toNat
    let rounded := (n + 1) / 2
    if rounded < bound then some rounded else none
  | infinite false => none
  | _ => some 0

end Double

end Switchboard
