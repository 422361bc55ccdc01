import Switchboard.Text.Cut

/-!
# Scanners

A scanner takes a value off the front of a text and leaves the rest, or it
fails and takes nothing. Where one of several readings fits, the first that
succeeds is taken.
-/

namespace Switchboard

abbrev Scan := StateT (List Char) Option

namespace Scan

variable {α : Type}

/-- One character that satisfies `p`. -/
def char (p : Char → Bool) : Scan Char
  | c :: rest => if p c then some (c, rest) else none
  | [] => none

/-- Exactly this text. -/
def exactly (text : String) : Scan Unit := fun s =>
  (Text.dropHead? text.toList s).map fun rest => ((), rest)

/-- The leading characters that satisfy `p`. -/
def run (p : Char → Bool) : Scan (List Char) := fun s =>
  some (s.takeWhile p, s.dropWhile p)

/-- The leading characters that satisfy `p`; there is at least one. -/
def someRun (p : Char → Bool) : Scan (List Char) := fun s =>
  if s.takeWhile p = [] then none else run p s

/-- The value if it is there. -/
def optional (x : Scan α) : Scan (Option α) :=
  (some <$> x) <|> pure none

/-- At most `limit` values. -/
def upTo (x : Scan α) : (limit : Nat) → Scan (List α)
  | 0 => pure []
  | limit + 1 => do
    match ← optional x with
    | none => pure []
    | some a => do
      let rest ← upTo x limit
      pure (a :: rest)

/-- As many values as there are; each takes at least a character. -/
def many (x : Scan α) : Scan (List α) := fun s =>
  upTo x s.length s

/-- The text ends here. -/
def atEnd : Scan Unit
  | [] => some ((), [])
  | _ :: _ => none

end Scan

end Switchboard
