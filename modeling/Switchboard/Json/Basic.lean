/-!
# JSON values

A value keeps the members of an object in their order, repetitions included:
what a repeated member means is for its reader to say. A number written
without fraction and exponent is an integer when it fits 64 bits, signed or
unsigned; every other number is a decimal and never passes for an integer.
-/

namespace Switchboard

inductive Json
  | null
  | bool (value : Bool)
  | integer (value : Int)
  /-- The number `mantissa * 10 ^ exponent`. -/
  | decimal (mantissa exponent : Int)
  | text (value : String)
  | list (items : List Json)
  | record (members : List (String × Json))
  deriving Repr, Inhabited

namespace Json

/-- Every value an object gives to a name, in order. -/
def valuesOf (members : List (String × Json)) (name : String) : List Json :=
  (members.filter fun m => m.1 = name).map (·.2)

/-- The value of a name that occurs exactly once. -/
def single? (members : List (String × Json)) (name : String) : Option Json :=
  match valuesOf members name with
  | [value] => some value
  | _ => none

def text? : Json → Option String
  | text value => some value
  | _ => none

def bool? : Json → Option Bool
  | bool value => some value
  | _ => none

def isNull : Json → Bool
  | null => true
  | _ => false

/-- Null, or an object without members. -/
def isVacant : Json → Bool
  | null => true
  | record [] => true
  | _ => false

/-- The name of a choice that carries nothing: a text, or the only name of an
object, whose value `carriesNothing`. -/
def choice? (carriesNothing : Json → Bool) : Json → Option String
  | text name => some name
  | record [(name, value)] => if carriesNothing value then some name else none
  | _ => none

/-- An integer from zero up to but not including `bound`. -/
def natural? (bound : Nat) : Json → Option Nat
  | integer (.ofNat n) => if n < bound then some n else none
  | _ => none

end Json

end Switchboard
