import Switchboard.Toml.Value

/-!
# Documents

A document is a sequence of lines. Pairs belong to the table of the last
header before them, or to the root. The whole document is refused when one of
its lines is ill-formed or defines anew what is defined already.
-/

namespace Switchboard.Toml

open Settings

inductive Line
  | blank
  | pair (pair : Pair)
  /-- Header of a table. -/
  | table (path : List String) (name : String)
  /-- Header of a further table in a list. -/
  | tables (path : List String) (name : String)

def header (opening closing : String) : Scan (List String × String) := do
  Scan.exactly opening
  let _ ← blanks
  let names ← key
  let _ ← blanks
  Scan.exactly closing
  pure names

def lineContent : Scan Line :=
  (do
    let (path, name) ← header "[[" "]]"
    pure (.tables path name))
  <|> (do
    let (path, name) ← header "[" "]"
    pure (.table path name))
  <|> (do
    let p ← pair (value maxNesting)
    pure (.pair p))
  <|> pure .blank

/-- A line with its end. Nothing is left of a text that has ended. -/
def line : Scan Line := fun s =>
  match s with
  | [] => none
  | s => (do
    let _ ← blanks
    let content ← lineContent
    lineEnd
    pure content : Scan Line) s

/-- The lines of a text. A byte order mark in front does not count. -/
def lines? (s : List Char) : Option (List Line) :=
  let s := match s with
    | '\uFEFF' :: rest => rest
    | s => s
  match Scan.many line s with
  | some (lines, []) => some lines
  | _ => none

/-- What is read so far: the root table, and the path of the table that pairs
belong to. -/
structure Document where
  root : Entries := []
  current : List String := []

namespace Document

def step (d : Document) : Line → Option Document
  | .blank => some d
  | .pair p =>
    (Entries.descend .implied (fun _ entries => Entries.insert p.path p.name p.value entries)
      .header d.current d.root).map fun root => { d with root }
  | .table path name =>
    (Entries.define path name d.root).map fun root => { root, current := path ++ [name] }
  | .tables path name =>
    (Entries.append path name d.root).map fun root => { root, current := path ++ [name] }

def ofLines? (lines : List Line) : Option Document :=
  lines.foldlM step {}

end Document

/-- Entries of the root table of a document. -/
def parse? (s : String) : Option (List (String × Tree)) :=
  (lines? s.toList).bind fun lines =>
    (Document.ofLines? lines).bind fun d =>
      match resolve? (.table (entriesToTrees d.root)) with
      | some (.table entries) => some entries
      | _ => none

end Switchboard.Toml
