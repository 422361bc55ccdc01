import Switchboard.Json.Basic
import Switchboard.Text.Numeral

/-!
# Writing JSON

Values are written without blanks, members in their order. Strings escape
the quote, the backslash and the control characters below U+0020, and
nothing else.
-/

namespace Switchboard.Json

def hexDigit (n : Nat) : Char :=
  if n < 10 then Char.ofNat ('0'.toNat + n) else Char.ofNat ('a'.toNat + (n - 10))

/-- Four hexadecimal digits of a code unit, after its escape letter. -/
def writeUnit (n : Nat) : List Char :=
  ['\\', 'u', hexDigit (n / 4096 % 16), hexDigit (n / 256 % 16), hexDigit (n / 16 % 16),
    hexDigit (n % 16)]

def writeChar (c : Char) : List Char :=
  match c with
  | '"' => ['\\', '"']
  | '\\' => ['\\', '\\']
  | '\x08' => ['\\', 'b']
  | '\x0c' => ['\\', 'f']
  | '\n' => ['\\', 'n']
  | '\r' => ['\\', 'r']
  | '\t' => ['\\', 't']
  | c => if c < ' ' then writeUnit c.toNat else [c]

def writeText (s : String) : List Char :=
  '"' :: s.toList.flatMap writeChar ++ ['"']

def writeInteger (n : Int) : List Char :=
  if n < 0 then '-' :: Text.decimal n.natAbs else Text.decimal n.natAbs

mutual

def write : Json → List Char
  | null => "null".toList
  | bool true => "true".toList
  | bool false => "false".toList
  | integer n => writeInteger n
  | decimal m e => writeInteger m ++ 'e' :: writeInteger e
  | text s => writeText s
  | list [] => ['[', ']']
  | list (item :: rest) => '[' :: write item ++ writeItems rest
  | record [] => ['{', '}']
  | record ((name, value) :: rest) =>
    '{' :: writeText name ++ ':' :: write value ++ writeMembers rest

/-- Later items of a list and its end. -/
def writeItems : List Json → List Char
  | [] => [']']
  | item :: rest => ',' :: write item ++ writeItems rest

/-- Later members of a record and its end. -/
def writeMembers : List (String × Json) → List Char
  | [] => ['}']
  | (name, value) :: rest =>
    ',' :: writeText name ++ ':' :: write value ++ writeMembers rest

end

def render (j : Json) : String :=
  String.ofList j.write

end Switchboard.Json
