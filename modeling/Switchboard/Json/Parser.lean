import Switchboard.Json.Basic
import Switchboard.Json.Token

/-!
# Reading JSON

Tokens are taken one at a time with the containers still open kept on a
stack, innermost first. A container is open in at most 127 levels. A text is
read when its tokens end exactly with its first complete value.
-/

namespace Switchboard.Json

/-- A container still open: its items so far, latest first. -/
inductive Frame
  | list (items : List Json)
  /-- A record that waits for the value of `name`. -/
  | member (members : List (String × Json)) (name : String)
  deriving Inhabited

/-- What may come next. -/
inductive Expect
  /-- A value. -/
  | value
  /-- A value, or the end of the list just opened. -/
  | valueOrEnd
  /-- A member name of a record with these members. -/
  | name (members : List (String × Json))
  /-- A member name, or the end of the record just opened. -/
  | nameOrEnd
  /-- The colon after a member name. -/
  | colon
  /-- A comma or the end of the innermost container, after this value. -/
  | separator (value : Json)

structure Reader where
  open_ : List Frame := []
  expect : Expect := .value

def maxOpen : Nat := 127

namespace Reader

/-- Opens a container inside those already open. -/
def descend (r : Reader) (expect : Expect) (frame? : Option Frame) : Option Reader :=
  if r.open_.length < maxOpen then some { open_ := frame?.toList ++ r.open_, expect } else none

/-- Takes the first token of a value. -/
def begin (r : Reader) : Token → Option Reader
  | .null => some { r with expect := .separator .null }
  | .bool b => some { r with expect := .separator (.bool b) }
  | .integer n => some { r with expect := .separator (.integer n) }
  | .decimal m e => some { r with expect := .separator (.decimal m e) }
  | .text s => some { r with expect := .separator (.text (String.ofList s)) }
  | .mark .openList => r.descend .valueOrEnd (some (.list []))
  | .mark .openRecord => r.descend .nameOrEnd (some (.member [] ""))
  | .mark _ => none

/-- Closes the innermost container as the given value. -/
def close (r : Reader) (value : Json) : Reader :=
  { open_ := r.open_.tail, expect := .separator value }

def step (r : Reader) (token : Token) : Option Reader :=
  match r.expect, r.open_, token with
  | .value, _, token => r.begin token
  | .valueOrEnd, _, .mark .closeList => some (r.close (.list []))
  | .valueOrEnd, _, token => r.begin token
  | .nameOrEnd, _, .mark .closeRecord => some (r.close (.record []))
  | .nameOrEnd, .member members _ :: outer, .text name =>
    some { open_ := .member members (String.ofList name) :: outer, expect := .colon }
  | .name members, _ :: outer, .text name =>
    some { open_ := .member members (String.ofList name) :: outer, expect := .colon }
  | .colon, _, .mark .colon => some { r with expect := .value }
  | .separator value, .list items :: outer, .mark .comma =>
    some { open_ := .list (value :: items) :: outer, expect := .value }
  | .separator value, .list items :: _, .mark .closeList =>
    some (r.close (.list (value :: items).reverse))
  | .separator value, .member members name :: _, .mark .comma =>
    some { r with expect := .name ((name, value) :: members) }
  | .separator value, .member members name :: _, .mark .closeRecord =>
    some (r.close (.record ((name, value) :: members).reverse))
  | _, _, _ => none

def run (r : Reader) : List Token → Option Reader
  | [] => some r
  | token :: rest => (r.step token).bind fun r => r.run rest

/-- The value read when nothing is left open. -/
def result? (r : Reader) : Option Json :=
  match r.expect, r.open_ with
  | .separator value, [] => some value
  | _, _ => none

end Reader

def ofTokens? (tokens : List Token) : Option Json :=
  (Reader.run {} tokens).bind Reader.result?

def parse? (s : String) : Option Json :=
  (Token.readAll s.toList).bind ofTokens?

end Switchboard.Json
