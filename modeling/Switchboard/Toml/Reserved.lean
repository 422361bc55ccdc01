import Switchboard.Settings.Tree
import Switchboard.Toml.Moment

/-!
# Reserved tables

A moment in a document is a table with one reserved name, which has the text
of the moment. A table written out with that name before all others is taken
for a moment as well, whatever else is in it; it is refused when the name has
no text or one that is no moment. The root is never a moment.
-/

namespace Switchboard.Toml

open Settings

/-- The name that makes a table a moment. -/
def momentName : String :=
  "$__toml_private_datetime"

/-- The table that stands for a moment with this text. -/
def momentTable (text : String) : Tree :=
  .table [(momentName, .text text)]

mutual

/-- The value with the texts of its moments in their place. -/
def resolve? : Tree → Option Tree
  | .list items => (resolveItems? items).map .list
  | .table [] => some (.table [])
  | .table ((name, value) :: rest) =>
    if name = momentName then
      match value with
      | .text s => (momentOfText? s).map .text
      | _ => none
    else
      (resolve? value).bind fun value =>
        (resolveEntries? rest).map fun rest => .table ((name, value) :: rest)
  | value => some value

def resolveItems? : List Tree → Option (List Tree)
  | [] => some []
  | item :: rest =>
    (resolve? item).bind fun item => (resolveItems? rest).map fun rest => item :: rest

def resolveEntries? : List (String × Tree) → Option (List (String × Tree))
  | [] => some []
  | (name, value) :: rest =>
    (resolve? value).bind fun value =>
      (resolveEntries? rest).map fun rest => (name, value) :: rest

end

end Switchboard.Toml
