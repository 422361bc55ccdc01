import Switchboard.Toml.Number
import Switchboard.Toml.Reserved
import Switchboard.Toml.Table
import Switchboard.Toml.Text

/-!
# Keys and values

A key is a name or several names with dots between them, each bare or quoted.
A value is a scalar, a list, which may span lines and end with a comma, or a
table on one line, which may not. Lists and tables nest less than eighty
levels deep, and keys have fewer than eighty names.
-/

namespace Switchboard.Toml

open Settings

def maxNesting : Nat := 79

def isBare (c : Char) : Bool :=
  c.isAlphanum || c = '_' || c = '-'

def simpleKey : Scan String :=
  String.ofList <$> (Scan.someRun isBare <|> basicLine <|> literalLine)

/-- The names before the last one, and the last. -/
def key : Scan (List String × String) := do
  let first ← simpleKey
  let rest ← Scan.many do
    let _ ← blanks
    Scan.exactly "."
    let _ ← blanks
    simpleKey
  if maxNesting < rest.length + 1 then failure
  match rest.getLast? with
  | none => pure ([], first)
  | some last => pure (first :: rest.dropLast, last)

/-- A key with its value. -/
structure Pair where
  path : List String
  name : String
  value : Tree

def pair (value : Scan Tree) : Scan Pair := do
  let (path, name) ← key
  let _ ← blanks
  Scan.exactly "="
  let _ ← blanks
  let value ← value
  pure { path, name, value }

def scalar : Scan Tree :=
  (do let s ← string; pure (.text (String.ofList s)))
    <|> (do let s ← moment; pure (momentTable (String.ofList s)))
    <|> double
    <|> integer
    <|> (do Scan.exactly "true"; pure (.bool true))
    <|> (do Scan.exactly "false"; pure (.bool false))

def list (value : Scan Tree) : Scan Tree := do
  Scan.exactly "["
  filler
  match ← Scan.optional value with
  | none => do
    Scan.exactly "]"
    pure (.list [])
  | some first => do
    let rest ← Scan.many do
      filler
      Scan.exactly ","
      filler
      value
    filler
    let _ ← Scan.optional (Scan.exactly ",")
    filler
    Scan.exactly "]"
    pure (.list (first :: rest))

def inlineTable (value : Scan Tree) : Scan Tree := do
  Scan.exactly "\x7b"
  let _ ← blanks
  let pairs ← do
    match ← Scan.optional (pair value) with
    | none => pure []
    | some first => do
      let rest ← Scan.many do
        let _ ← blanks
        Scan.exactly ","
        let _ ← blanks
        pair value
      pure (first :: rest)
  let _ ← blanks
  Scan.exactly "\x7d"
  match pairs.foldlM (fun entries p => Entries.insert p.path p.name p.value entries) [] with
  | none => failure
  | some entries => pure (.table (entriesToTrees entries))

/-- A value with lists and tables in at most so many levels. -/
def value : (levels : Nat) → Scan Tree
  | 0 => scalar
  | levels + 1 => list (value levels) <|> inlineTable (value levels) <|> scalar

end Switchboard.Toml
