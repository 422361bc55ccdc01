/-!
# File paths

Paths are compared component by component. Repeated and trailing separators
do not count, nor do the dots that stand for the place itself, except for one
at the very start of a relative path.
-/

namespace Switchboard.Call

structure Path where
  written : String
  deriving DecidableEq, Repr

namespace Path

inductive Component
  /-- The path is absolute. -/
  | root
  /-- The path starts from where it is read. -/
  | here
  | named (name : List Char)
  deriving DecidableEq, Repr

def components (p : Path) : List Component :=
  let pieces := p.written.toList.splitOn '/'
  let names := (pieces.filter fun piece => piece ≠ [] ∧ piece ≠ ['.']).map Component.named
  match p.written.toList, pieces with
  | '/' :: _, _ => .root :: names
  | _, ['.'] :: _ => .here :: names
  | _, _ => names

def same (a b : Path) : Bool :=
  a.components = b.components

end Path

end Switchboard.Call
