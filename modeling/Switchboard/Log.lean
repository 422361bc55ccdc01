import Switchboard.Text.Blank
import Switchboard.Text.Fold

/-!
# Log formats

A log is written for machines, one object per line, or for people.
-/

namespace Switchboard.Log

inductive Format
  | json
  | console
  deriving DecidableEq, Repr

/-- A text that names no format, trimmed and in lower case. -/
structure UnknownFormat where
  text : String
  deriving DecidableEq, Repr

def UnknownFormat.message (u : UnknownFormat) : String :=
  "unknown log format: " ++ u.text

namespace Format

def name : Format → String
  | json => "json"
  | console => "console"

/-- Three words ask for a log that people read. -/
def parse (s : String) : Except UnknownFormat Format :=
  match String.ofList (Text.lower (Text.trim s.toList)) with
  | "json" => .ok json
  | "console" => .ok console
  | "pretty" => .ok console
  | "text" => .ok console
  | other => .error ⟨other⟩

end Format

end Switchboard.Log
