import Switchboard.Scan

/-!
# Blanks, line ends and comments

Blanks are the space and the tab. A comment runs to the end of its line and
holds no control character but the tab.
-/

namespace Switchboard.Toml

def isBlank (c : Char) : Bool :=
  c = ' ' || c = '\t'

def blanks : Scan (List Char) :=
  Scan.run isBlank

def newline : Scan Unit :=
  Scan.exactly "\n" <|> Scan.exactly "\r\n"

/-- No control character but the tab. -/
def isPlain (c : Char) : Bool :=
  c = '\t' || (' ' ≤ c && c ≠ '\x7f')

def comment : Scan Unit := do
  Scan.exactly "#"
  let _ ← Scan.run isPlain
  pure ()

/-- What may stand after the last value of a line. -/
def lineEnd : Scan Unit := do
  let _ ← blanks
  let _ ← Scan.optional comment
  newline <|> Scan.atEnd

/-- What may stand between the values of a list. -/
def filler : Scan Unit := do
  let _ ← Scan.many do
    (do let _ ← Scan.someRun isBlank; pure ()) <|> newline <|> (do comment; newline)
  pure ()

end Switchboard.Toml
