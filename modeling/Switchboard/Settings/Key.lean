import Switchboard.Scan
import Switchboard.Settings.Tree

/-!
# Keys of settings

The key of a setting at the root is a path: names with dots between them, and
subscripts. A key that is no path is one name, as it stands. Keys are set one
after another, and each is laid over what is there already. A list grows up
to the place that is set; the places it skips stay vacant.
-/

namespace Switchboard.Settings

/-- A step down into a table or into a list. -/
inductive Step
  | name (name : String)
  /-- A place of a list, counted from its end where negative. -/
  | item (index : Int)
  deriving DecidableEq, Repr

abbrev Key := List Step

namespace Key

def isNameChar (c : Char) : Bool :=
  c.isAlphanum || c = '_' || c = '-' || c = ' '

def name : Scan Step := do
  let cs ← Scan.someRun isNameChar
  pure (.name (String.ofList cs))

def isSpace (c : Char) : Bool :=
  c = ' ' || c = '\t'

/-- A place in brackets, spaces around it allowed. One past 64 bits is none. -/
def subscript : Scan Step := do
  Scan.exactly "["
  let _ ← Scan.run isSpace
  let sign? ← Scan.optional (Scan.char (· = '-'))
  let digits ← Scan.someRun Char.isDigit
  let _ ← Scan.run isSpace
  Scan.exactly "]"
  match Text.integer? (Nat.pow 2 63) (sign?.toList ++ digits) with
  | some index => pure (.item index)
  | none => failure

def path : Scan Key := do
  let first ← name
  let rest ← Scan.many ((do Scan.exactly "."; name) <|> subscript)
  Scan.atEnd
  pure (first :: rest)

def read (s : String) : Key :=
  match path s.toList with
  | some (key, _) => key
  | none => [.name s]

end Key

namespace Tree

/-- Lists have at most so many places. -/
def maxPlaces : Nat :=
  Nat.pow 2 24

/-- The place that an index stands for in a list of this length. -/
def place? (index : Int) (length : Nat) : Option Nat :=
  let place := if index < 0 then index + length else index
  if 0 ≤ place ∧ place < maxPlaces then some place.toNat else none

/-- Fills a place of a list, which grows as far as needed. -/
def fill (place : Nat) (value : Tree) (items : List Tree) : List Tree :=
  (items ++ List.replicate (place + 1 - items.length) vacant).set place value

/-- Sets a key below a value that may be there. Tables and lists come about
where the key needs them. Under a name a value is laid over what is there, in
a list it takes the place. Nothing is set before the start of a list,
nor past its greatest length. -/
def setAt (value : Tree) (below? : Option Tree) : Key → Option Tree
  | [] => some value
  | .item index :: rest =>
    let items := (below?.bind items?).getD []
    (place? index items.length).bind fun place =>
      (setAt value items[place]? rest).map fun item => list (fill place item items)
  | .name name :: rest =>
    let entries := (below?.bind entries?).getD []
    let folded := foldName name
    let old? := lookup? folded entries
    let inner? := if rest = [] then some (overlay old? value) else setAt value old? rest
    inner?.map fun inner => table (put folded inner entries)

/-- Entries of the root table after all keys are set in order. -/
def layer? (values : List (String × Tree)) : Option (List (String × Tree)) :=
  (values.foldlM (fun root entry => setAt entry.2 (some root) (Key.read entry.1))
    (table [])).bind entries?

/-- Entries of the root table for these keys. They are set once as the source
gives them and once more as they are then named: a key that is no path may be
one with its name folded. -/
def ofKeys? (values : List (String × Tree)) : Option (List (String × Tree)) :=
  (layer? values).bind layer?

end Tree

end Switchboard.Settings
