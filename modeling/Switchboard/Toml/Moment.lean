import Switchboard.Text.Numeral
import Switchboard.Toml.Space

/-!
# Dates and times

A date, a time, or both with an offset from universal time or without.
Whatever the spelling, a moment is written in one way: a capital T between
date and time, no zeros at the end of the seconds, and a capital Z or a
signed offset. A text of its own is a moment under the same rules.
-/

namespace Switchboard.Toml

/-- Exactly so many digits, of a number within bounds. -/
def field (digits low high : Nat) : Scan Nat := fun s =>
  match Text.digits? (s.take digits) with
  | some n => if digits ≤ s.length ∧ low ≤ n ∧ n ≤ high then some (n, s.drop digits) else none
  | none => none

/-- The number in at least so many digits. -/
def padded (digits n : Nat) : List Char :=
  let text := Text.decimal n
  List.replicate (digits - text.length) '0' ++ text

def isLeapYear (year : Nat) : Bool :=
  year % 4 = 0 && (year % 100 ≠ 0 || year % 400 = 0)

def daysIn (year month : Nat) : Nat :=
  if month = 2 then (if isLeapYear year then 29 else 28)
  else if month = 4 ∨ month = 6 ∨ month = 9 ∨ month = 11 then 30
  else 31

def date : Scan (List Char) := do
  let year ← field 4 0 9999
  Scan.exactly "-"
  let month ← field 2 1 12
  Scan.exactly "-"
  let day ← field 2 1 (daysIn year month)
  pure (padded 4 year ++ '-' :: padded 2 month ++ '-' :: padded 2 day)

/-- Digits of a second after its point, nine at most and without zeros at the
end. -/
def secondFraction : Scan (List Char) := do
  Scan.exactly "."
  let digits ← Scan.someRun Char.isDigit
  match ((digits.take 9).reverse.dropWhile (· = '0')).reverse with
  | [] => pure []
  | kept => pure ('.' :: kept)

def time : Scan (List Char) := do
  let hour ← field 2 0 23
  Scan.exactly ":"
  let minute ← field 2 0 59
  Scan.exactly ":"
  let second ← field 2 0 60
  let fraction? ← Scan.optional secondFraction
  pure (padded 2 hour ++ ':' :: padded 2 minute ++ ':' :: padded 2 second
    ++ fraction?.getD [])

/-- An offset of less than a day. One of nothing is written with a plus
sign. -/
def offset : Scan (List Char) :=
  (do let _ ← Scan.char fun c => c = 'Z' || c = 'z'; pure ['Z'])
    <|> do
      let mark ← Scan.char fun c => c = '+' || c = '-'
      let hours ← field 2 0 23
      Scan.exactly ":"
      let minutes ← field 2 0 59
      let mark := if hours = 0 ∧ minutes = 0 then '+' else mark
      pure (mark :: padded 2 hours ++ ':' :: padded 2 minutes)

/-- The time after a date, with its offset. -/
def timeOfDay : Scan (List Char) := do
  let _ ← Scan.char fun c => c = 'T' || c = 't' || c = ' '
  let clock ← time
  let offset? ← Scan.optional offset
  pure ('T' :: clock ++ offset?.getD [])

def dateTime : Scan (List Char) := do
  let day ← date
  let rest? ← Scan.optional timeOfDay
  pure (day ++ rest?.getD [])

def moment : Scan (List Char) :=
  dateTime <|> time

/-- A text that is a moment, in the one way moments are written. -/
def momentOfText? (s : String) : Option String :=
  (do
    let written ← moment
    Scan.atEnd
    pure (String.ofList written) : Scan String) s.toList |>.map (·.1)

end Switchboard.Toml
