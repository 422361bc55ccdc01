import Switchboard.Number.Double

/-!
# Shortest decimals

A double is written with the fewest digits that read back as the same double,
and of those with the digits nearest to it, the greater ones if two are
equally near. The digits are placed around the point by position, however
many zeros that takes.
-/

namespace Switchboard.Double

/-- Number of decimal digits. -/
def places (n : Nat) : Nat :=
  (Nat.toDigits 10 n).length

/-- The power of ten at the first digit of a positive fraction. -/
def leadingPlace (num den : Nat) : Int :=
  if den ≤ num then (places (num / den) : Int) - 1
  else -(places ((den - 1) / num) : Int)

/-- Bounds of the reals that read back as `mantissa * 2 ^ exponent`, in
quarters of `2 ^ exponent`. -/
def quarterBounds (mantissa : Nat) (exponent : Int) : Nat × Nat :=
  (4 * mantissa - (if mantissa = Nat.pow 2 52 ∧ minExponent < exponent then 1 else 2),
    4 * mantissa + 2)

/-- The neighbour of the double among the multiples of `10 ^ place` that reads
back: the nearer one if both do, the greater one if both are equally near. -/
def onGrid? (mantissa : Nat) (exponent place : Int) : Option Nat :=
  let (low, high) := quarterBounds mantissa exponent
  let up := Nat.pow 2 (exponent - 2).toNat * Nat.pow 10 (-place).toNat
  let unit := Nat.pow 2 (2 - exponent).toNat * Nat.pow 10 place.toNat
  let value := 4 * mantissa * up
  let below := value / unit
  let reads (n : Nat) : Bool :=
    if mantissa % 2 = 0 then low * up ≤ n * unit && n * unit ≤ high * up
    else low * up < n * unit && n * unit < high * up
  match reads below && below ≠ 0, reads (below + 1) with
  | true, true => if 2 * (value % unit) < unit then some below else some (below + 1)
  | true, false => some below
  | false, true => some (below + 1)
  | false, false => none

/-- The shortest digits, tried from `count` digits on, and the power of ten of
the last one. -/
def shortestFrom (mantissa : Nat) (exponent leading : Int) : (tries count : Nat) → Nat × Int
  | 0, _ => (mantissa, 0)
  | tries + 1, count =>
    let place := leading + 1 - count
    match onGrid? mantissa exponent place with
    | some digits => (digits, place)
    | none => shortestFrom mantissa exponent leading tries (count + 1)

/-- The shortest digits of a positive double; seventeen always suffice. -/
def shortest (mantissa : Nat) (exponent : Int) : Nat × Int :=
  let (num, den) := scale mantissa 1 (-exponent)
  shortestFrom mantissa exponent (leadingPlace num den) 17 1

/-- The digits of `n * 10 ^ place` around the point. -/
def position (n : Nat) (place : Int) : List Char :=
  let digits := Nat.toDigits 10 n
  if 0 ≤ place then digits ++ List.replicate place.toNat '0'
  else
    let after := (-place).toNat
    let padded := List.replicate (after + 1 - digits.length) '0' ++ digits
    padded.take (padded.length - after) ++ '.' :: padded.drop (padded.length - after)

/-- Zeros at the end of the digits belong to the power of ten. -/
def dropZeros : (tries : Nat) → Nat → Int → Nat × Int
  | 0, n, place => (n, place)
  | tries + 1, n, place =>
    if n ≠ 0 ∧ n % 10 = 0 then dropZeros tries (n / 10) (place + 1) else (n, place)

def write : Double → List Char
  | notNumber => "NaN".toList
  | infinite negative => (if negative then ['-'] else []) ++ "inf".toList
  | finite negative mantissa exponent =>
    (if negative then ['-'] else []) ++
      if mantissa = 0 then ['0']
      else
        let (n, place) := shortest mantissa exponent
        let (n, place) := dropZeros 20 n place
        position n place

end Switchboard.Double
