import Switchboard.Settings.Tree

/-!
# Tables under construction

A table comes about by its header, by the header of a table below it, or by a
key with dots. A header defines a table once, and only one that so far has
come about below another header. A key with dots extends only tables that
came about by such keys.
-/

namespace Switchboard.Toml

open Settings

/-- How a table has come about. -/
inductive Origin
  /-- It has a header of its own. -/
  | header
  /-- A table below it has a header. -/
  | implied
  /-- A key with dots goes through it. -/
  | dotted
  deriving DecidableEq, Repr

inductive Node
  /-- A value, which nothing can be added to. -/
  | value (value : Tree)
  | table (origin : Origin) (entries : List (String × Node))
  /-- A list of tables, each with a header. -/
  | tables (items : List (List (String × Node)))
  deriving Inhabited

abbrev Entries := List (String × Node)

namespace Entries

def lookup? (name : String) (entries : Entries) : Option Node :=
  (entries.find? fun e => e.1 = name).map (·.2)

def put (name : String) (node : Node) : Entries → Entries
  | [] => [(name, node)]
  | e :: rest => if e.1 = name then (name, node) :: rest else e :: put name node rest

/-- Changes the table at a path, which a header names (`origin` is then
`implied`) or a key with dots. Tables that are missing come about. The change
is told how its table has come about. -/
def descend (origin : Origin) (change : Origin → Entries → Option Entries) (reached : Origin) :
    List String → Entries → Option Entries
  | [], entries => change reached entries
  | name :: path, entries =>
    match lookup? name entries with
    | none =>
      (descend origin change origin path []).map fun inner =>
        entries ++ [(name, .table origin inner)]
    | some (.value _) => none
    | some (.tables items) =>
      match items.getLast? with
      | none => none
      | some last =>
        (descend origin change .header path last).map fun last =>
          put name (.tables (items.dropLast ++ [last])) entries
    | some (.table found inner) =>
      if origin = .dotted ∧ found = .header then none
      else
        (descend origin change found path inner).map fun inner =>
          put name (.table found inner) entries

/-- Gives a key in this table a value; a key with dots reaches down through
tables of its own kind. -/
def insert (path : List String) (name : String) (value : Tree) (entries : Entries) :
    Option Entries :=
  let change (reached : Origin) (entries : Entries) : Option Entries :=
    if (reached = .dotted) ≠ (path ≠ []) ∨ (lookup? name entries).isSome then none
    else some (entries ++ [(name, .value value)])
  descend .dotted change .header path entries

/-- Defines the table of a header. It comes after all that is in its parent by
then, also where a table below it was there before. -/
def define (path : List String) (name : String) : Entries → Option Entries :=
  descend .implied (fun _ entries =>
    match lookup? name entries with
    | none => some (entries ++ [(name, .table .header [])])
    | some (.table .implied inner) =>
      some (entries.filter (fun e => e.1 ≠ name) ++ [(name, .table .header inner)])
    | some _ => none) .header path

/-- Adds a table to the list that a header names. -/
def append (path : List String) (name : String) : Entries → Option Entries :=
  descend .implied (fun _ entries =>
    match lookup? name entries with
    | none => some (entries ++ [(name, .tables [[]])])
    | some (.tables items) => some (put name (.tables (items ++ [[]])) entries)
    | some _ => none) .header path

end Entries

mutual

def Node.toTree : Node → Tree
  | .value value => value
  | .table _ entries => .table (entriesToTrees entries)
  | .tables items => .list (itemsToTrees items)

def entriesToTrees : List (String × Node) → List (String × Tree)
  | [] => []
  | (name, node) :: rest => (name, node.toTree) :: entriesToTrees rest

def itemsToTrees : List (List (String × Node)) → List Tree
  | [] => []
  | entries :: rest => .table (entriesToTrees entries) :: itemsToTrees rest

end

end Switchboard.Toml
