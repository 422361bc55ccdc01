import Switchboard.Scan
import Switchboard.Settings.Tree

/-!
# Settings from the environment

Variables whose names have the right head are settings: two underscores in
the rest of a name stand for a dot. The text of a variable is taken for a
switch, a whole number or a fraction where it is written like one.
-/

namespace Switchboard.Settings.Environment

/-- What the names of settings start with, in any letter case. -/
def head : List Char :=
  "parley_".toList

/-- Every pair of underscores, taken from the left, becomes a dot. -/
def dots : List Char → List Char
  | '_' :: '_' :: rest => '.' :: dots rest
  | c :: rest => c :: dots rest
  | [] => []

/-- Key of the setting that a variable of this name gives a value. -/
def key? (name : String) : Option String :=
  (Text.dropHead? head (Tree.foldName name).toList).map fun rest => String.ofList (dots rest)

/-! ## Fractions -/

def sign : Scan Bool := do
  match ← Scan.optional (Scan.char fun c => c = '+' || c = '-') with
  | some '-' => pure true
  | _ => pure false

/-- Words for what no digits can say, in any letter case. -/
def specialDouble? (negative : Bool) (s : List Char) : Option Double :=
  match String.ofList (Text.lower s) with
  | "inf" => some (.infinite negative)
  | "infinity" => some (.infinite negative)
  | "nan" => some .notNumber
  | _ => none

def exponent : Scan Int := do
  let _ ← Scan.char fun c => c = 'e' || c = 'E'
  let negative ← sign
  let digits ← Scan.someRun Char.isDigit
  let n := Nat.ofDigitChars 10 digits 0
  pure (if negative then -(n : Int) else n)

/-- Digits with a point among them or around them, and an exponent. -/
def decimalDouble (negative : Bool) : Scan Double := do
  let whole ← Scan.run Char.isDigit
  let fraction? ← Scan.optional do
    Scan.exactly "."
    Scan.run Char.isDigit
  let digits := whole ++ fraction?.getD []
  if digits = [] then failure
  let exponent? ← Scan.optional exponent
  Scan.atEnd
  pure (.ofDecimal negative (Nat.ofDigitChars 10 digits 0)
    (exponent?.getD 0 - (fraction?.getD []).length))

def double? (s : List Char) : Option Double :=
  match sign s with
  | some (negative, rest) =>
    (specialDouble? negative rest).or ((decimalDouble negative rest).map (·.1))
  | none => none

/-! ## Variables -/

def valueOf (s : String) : Tree :=
  match String.ofList (Text.lower s.toList) with
  | "true" => .bool true
  | "false" => .bool false
  | _ =>
    match Text.integer? (Nat.pow 2 63) s.toList with
    | some n => .integer n
    | none =>
      match double? s.toList with
      | some d => .double d
      | none => .text s

/-- The keys and values that variables give. -/
def values (vars : List (String × String)) : List (String × Tree) :=
  vars.filterMap fun (name, text) => (key? name).map fun key => (key, valueOf text)

end Switchboard.Settings.Environment
