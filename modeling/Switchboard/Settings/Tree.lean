import Switchboard.Number.Shortest
import Switchboard.Text.Fold
import Switchboard.Text.Numeral

/-!
# Setting values

Settings come as a tree of values: scalars, lists and tables of named values.
A place of a list may also be vacant. A scalar stands for a setting of another
kind where it has an obvious value as one: a number or a word for a switch, a
word or a fraction for a count.
-/

namespace Switchboard.Settings

inductive Tree
  /-- The value of a place in a list that was never filled. -/
  | vacant
  | bool (value : Bool)
  | integer (value : Int)
  | double (value : Double)
  | text (value : String)
  | list (items : List Tree)
  | table (entries : List (String × Tree))
  deriving Repr, Inhabited

namespace Tree

def entries? : Tree → Option (List (String × Tree))
  | table entries => some entries
  | _ => none

def items? : Tree → Option (List Tree)
  | list items => some items
  | _ => none

/-- Words for on and off, in any letter case. -/
def switchWord? (s : String) : Option Bool :=
  let among (words : List String) := words.any (Text.sameName s)
  if among ["true", "on", "yes"] then some true
  else if among ["false", "off", "no"] then some false
  else none

def bool? : Tree → Option Bool
  | bool b => some b
  | integer n => some (n ≠ 0)
  | double d => some (!d.isZero)
  | text "1" => some true
  | text "0" => some false
  | text s => switchWord? s
  | _ => none

/-- A count below `bound`. -/
def natural? (bound : Nat) : Tree → Option Nat
  | bool b => some b.toNat
  | integer n => if 0 ≤ n ∧ n < bound then some n.toNat else none
  | double d => d.toNatural? bound
  | text s =>
    match switchWord? s with
    | some b => some b.toNat
    | none => Text.natural? bound s.toList
  | _ => none

def text? : Tree → Option String
  | text s => some s
  | bool b => some (if b then "true" else "false")
  | integer n =>
    some (String.ofList ((if n < 0 then ['-'] else []) ++ Text.decimal n.natAbs))
  | double d => some (String.ofList d.write)
  | _ => none

/-! ## Tables with folded names -/

/-- Lower-case form of a name's character. Beside the ASCII letters, the
Kelvin sign is the only character whose lower-case form is an ASCII letter. -/
def foldChar (c : Char) : Char :=
  if c = '\u212A' then 'k' else c.toLower

def foldName (name : String) : String :=
  String.ofList (name.toList.map foldChar)

def lookup? (name : String) (entries : List (String × Tree)) : Option Tree :=
  (entries.find? fun e => e.1 = name).map (·.2)

/-- Gives a name its value, in the place the name has or at the end. -/
def put (name : String) (value : Tree) : List (String × Tree) → List (String × Tree)
  | [] => [(name, value)]
  | e :: rest => if e.1 = name then (name, value) :: rest else e :: put name value rest

mutual

/-- A value laid over one that may be there: a table is merged entry by entry
under folded names, anything else takes the place. A table without entries
changes nothing. -/
def overlay (below? : Option Tree) : Tree → Tree
  | table [] => below?.getD (table [])
  | table (entry :: rest) =>
    table (overlayAll ((below?.bind entries?).getD []) (entry :: rest))
  | value => value

def overlayAll (below : List (String × Tree)) : List (String × Tree) → List (String × Tree)
  | [] => below
  | (name, value) :: rest =>
    let folded := foldName name
    overlayAll (put folded (overlay (lookup? folded below) value) below) rest

end

end Tree

end Switchboard.Settings
