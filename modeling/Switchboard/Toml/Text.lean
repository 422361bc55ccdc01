import Switchboard.Text.Numeral
import Switchboard.Toml.Space

/-!
# Strings

A string is basic, with escapes, or literal, and stands on one line or on
several. A line break right after the opening marks does not count, and an
escaped line break swallows the blanks and breaks after it. Up to two quotes
may stand inside a string of several lines, also right before its end.
-/

namespace Switchboard.Toml

/-- The character with this code in so many hexadecimal digits. -/
def codePoint (digits : Nat) : Scan Char := fun s =>
  if s.length < digits then none
  else
    match Text.hexadecimal? (s.take digits) with
    | some n =>
      if h : n.isValidChar then some (Char.ofNatAux n h, s.drop digits) else none
    | none => none

/-- What an escape stands for, after its backslash. -/
def escaped : Scan Char := do
  match ← Scan.char fun _ => true with
  | 'b' => pure '\x08'
  | 't' => pure '\t'
  | 'n' => pure '\n'
  | 'f' => pure '\x0c'
  | 'r' => pure '\r'
  | '"' => pure '"'
  | '\\' => pure '\\'
  | 'u' => codePoint 4
  | 'U' => codePoint 8
  | _ => failure

def escape : Scan Char := do
  Scan.exactly "\\"
  escaped

def isBasic (c : Char) : Bool :=
  isPlain c && c ≠ '"' && c ≠ '\\'

def isLiteral (c : Char) : Bool :=
  isPlain c && c ≠ '\''

def basicLine : Scan (List Char) := do
  Scan.exactly "\""
  let value ← Scan.many (Scan.char isBasic <|> escape)
  Scan.exactly "\""
  pure value

def literalLine : Scan (List Char) := do
  Scan.exactly "'"
  let value ← Scan.run isLiteral
  Scan.exactly "'"
  pure value

/-- One or two marks that do not begin the end of the string. -/
def innerMarks (mark : Char) : Scan (List Char) := fun s =>
  let marks := s.takeWhile (· = mark)
  if marks.length = 1 ∨ marks.length = 2 then some (marks, s.dropWhile (· = mark)) else none

/-- The end of a string of several lines, with at most two marks of its own. -/
def closingMarks (mark : Char) : Scan (List Char) := fun s =>
  let count := (s.takeWhile (· = mark)).length
  if count < 3 then none
  else
    let own := min (count - 3) 2
    some (List.replicate own mark, s.drop (own + 3))

def lineBreak : Scan (List Char) := do
  newline
  pure ['\n']

/-- A backslash at the end of a line, with the blank lines after it. -/
def escapedBreak : Scan (List Char) := do
  Scan.exactly "\\"
  let _ ← blanks
  newline
  let _ ← Scan.many ((do let _ ← Scan.someRun isBlank; pure ()) <|> newline)
  pure []

def one (x : Scan Char) : Scan (List Char) := do
  let c ← x
  pure [c]

def severalLines (mark : Char) (piece : Scan (List Char)) : Scan (List Char) := do
  Scan.exactly (String.ofList [mark, mark, mark])
  let _ ← Scan.optional newline
  let pieces ← Scan.many (piece <|> lineBreak <|> innerMarks mark)
  let own ← closingMarks mark
  pure (pieces.flatten ++ own)

def basicLines : Scan (List Char) :=
  severalLines '"' (one (Scan.char isBasic) <|> escapedBreak <|> one escape)

def literalLines : Scan (List Char) :=
  severalLines '\'' (one (Scan.char isLiteral))

def string : Scan (List Char) :=
  basicLines <|> literalLines <|> basicLine <|> literalLine

end Switchboard.Toml
