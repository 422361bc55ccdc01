import Switchboard.Settings.Tree
import Switchboard.Toml.Space

/-!
# Numbers

An integer is decimal, or has a prefix that says its base, and fits 64 bits
with a sign. A number with a fraction or an exponent is a double; so are the
infinities and the value that is no number. A single underscore may stand
between two digits.
-/

namespace Switchboard.Toml

open Settings

/-- Digits with single underscores between them. -/
def digitsOf (isDigit : Char → Bool) : Scan (List Char) := do
  let first ← Scan.char isDigit
  let rest ← Scan.many do
    let _ ← Scan.optional (Scan.exactly "_")
    Scan.char isDigit
  pure (first :: rest)

/-- A sign, if there is one: the number is negative. -/
def sign : Scan Bool := do
  match ← Scan.optional (Scan.char fun c => c = '+' || c = '-') with
  | some '-' => pure true
  | _ => pure false

/-- Digits that are not led by a zero, or a single zero. -/
def wholeDigits : Scan (List Char) := fun s =>
  match s with
  | '0' :: rest => some (['0'], rest)
  | _ => digitsOf Char.isDigit s

def inBase (head : String) (base : Nat) : Scan Tree := do
  Scan.exactly head
  let digits ← digitsOf fun c => (Text.hexDigit? c).any (· < base)
  let n := Text.ofHexDigits base digits
  if n < Nat.pow 2 63 then pure (.integer n) else failure

def decimalInteger : Scan Tree := do
  let negative ← sign
  let digits ← wholeDigits
  let n := Text.ofHexDigits 10 digits
  if n < Nat.pow 2 63 + negative.toNat then
    pure (.integer (if negative then -(n : Int) else n))
  else failure

def integer : Scan Tree :=
  inBase "0x" 16 <|> inBase "0o" 8 <|> inBase "0b" 2 <|> decimalInteger

def fraction : Scan (List Char) := do
  Scan.exactly "."
  digitsOf Char.isDigit

def exponent : Scan Int := do
  Scan.exactly "e" <|> Scan.exactly "E"
  let negative ← sign
  let n := Text.ofHexDigits 10 (← digitsOf Char.isDigit)
  pure (if negative then -(n : Int) else n)

/-- A double in decimal notation. A positive one too great for a double is
refused. -/
def decimalDouble : Scan Tree := do
  let negative ← sign
  let whole ← wholeDigits
  let fraction? ← Scan.optional fraction
  let exponent? ← Scan.optional exponent
  if fraction?.isNone ∧ exponent?.isNone then failure
  let digits := whole ++ fraction?.getD []
  let d := Double.ofDecimal negative (Text.ofHexDigits 10 digits)
    (exponent?.getD 0 - (fraction?.getD []).length)
  if d = .infinite false then failure else pure (.double d)

def specialDouble : Scan Tree := do
  let negative ← sign
  (do Scan.exactly "inf"; pure (.double (.infinite negative)))
    <|> (do Scan.exactly "nan"; pure (.double .notNumber))

def double : Scan Tree :=
  decimalDouble <|> specialDouble

end Switchboard.Toml
