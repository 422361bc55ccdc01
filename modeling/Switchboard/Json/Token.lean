import Switchboard.Number.Double
import Switchboard.Text.Numeral

/-!
# JSON tokens

A JSON text is a sequence of marks, literals, numbers and strings between
blanks. An escaped surrogate stands for a character only together with its
other half, and a control character never stands in a string unescaped. A
number is refused when the double it is worked out as, from the digits that
fit 64 bits and a power of ten, is infinite.
-/

namespace Switchboard.Json

inductive Mark
  | openList
  | closeList
  | openRecord
  | closeRecord
  | colon
  | comma
  deriving DecidableEq, Repr

inductive Token
  | mark (m : Mark)
  | null
  | bool (value : Bool)
  | integer (value : Int)
  | decimal (mantissa exponent : Int)
  | text (value : List Char)
  deriving DecidableEq, Repr

namespace Token

/-! ## Strings -/

/-- Four hexadecimal digits, and what follows. -/
def readUnit : List Char → Option (Nat × List Char)
  | a :: b :: c :: d :: rest => do
    let a ← Text.hexDigit? a
    let b ← Text.hexDigit? b
    let c ← Text.hexDigit? c
    let d ← Text.hexDigit? d
    pure (((a * 16 + b) * 16 + c) * 16 + d, rest)
  | _ => none

/-- Second half of a surrogate pair, written as its own escape. -/
def readLowSurrogate : List Char → Option (Nat × List Char)
  | '\\' :: 'u' :: rest =>
    match readUnit rest with
    | some (low, rest) => if 0xDC00 ≤ low ∧ low < 0xE000 then some (low - 0xDC00, rest) else none
    | none => none
  | _ => none

/-- The character an escape stands for, read from what follows its
backslash. -/
def readEscape : List Char → Option (Char × List Char)
  | '"' :: rest => some ('"', rest)
  | '\\' :: rest => some ('\\', rest)
  | '/' :: rest => some ('/', rest)
  | 'b' :: rest => some ('\x08', rest)
  | 'f' :: rest => some ('\x0c', rest)
  | 'n' :: rest => some ('\n', rest)
  | 'r' :: rest => some ('\r', rest)
  | 't' :: rest => some ('\t', rest)
  | 'u' :: rest =>
    match readUnit rest with
    | none => none
    | some (unit, rest) =>
      if 0xD800 ≤ unit ∧ unit < 0xDC00 then
        match readLowSurrogate rest with
        | some (low, rest) => some (Char.ofNat (0x10000 + (unit - 0xD800) * 0x400 + low), rest)
        | none => none
      else if 0xDC00 ≤ unit ∧ unit < 0xE000 then none
      else some (Char.ofNat unit, rest)
  | _ => none

theorem length_of_readUnit {s rest : List Char} {n : Nat}
    (h : readUnit s = some (n, rest)) : rest.length < s.length := by
  match s with
  | [] | [_] | [_, _] | [_, _, _] => simp [readUnit] at h
  | a :: b :: c :: d :: tail =>
    simp only [readUnit, Option.bind_eq_bind, Option.bind_eq_some_iff, Option.pure_def,
      Option.some.injEq, Prod.mk.injEq] at h
    obtain ⟨_, _, _, _, _, _, _, _, _, rfl⟩ := h
    simp only [List.length_cons]
    omega

theorem length_of_readLowSurrogate {s rest : List Char} {n : Nat}
    (h : readLowSurrogate s = some (n, rest)) : rest.length < s.length := by
  unfold readLowSurrogate at h
  split at h
  · split at h
    · rename_i hunit
      have := length_of_readUnit hunit
      split at h
      · simp only [Option.some.injEq, Prod.mk.injEq] at h
        obtain ⟨-, rfl⟩ := h
        simp only [List.length_cons]
        omega
      · simp at h
    · simp at h
  · simp at h

theorem length_of_readEscape {s rest : List Char} {c : Char}
    (h : readEscape s = some (c, rest)) : rest.length < s.length := by
  unfold readEscape at h
  split at h
  case h_9 =>
    split at h
    · simp at h
    · rename_i hunit
      have hshort := length_of_readUnit hunit
      split at h
      · split at h
        · rename_i hlow
          have := length_of_readLowSurrogate hlow
          simp only [Option.some.injEq, Prod.mk.injEq] at h
          obtain ⟨-, rfl⟩ := h
          simp only [List.length_cons]
          omega
        · simp at h
      · split at h
        · simp at h
        · simp only [Option.some.injEq, Prod.mk.injEq] at h
          obtain ⟨-, rfl⟩ := h
          simp only [List.length_cons]
          omega
  case h_10 => simp at h
  all_goals
    simp only [Option.some.injEq, Prod.mk.injEq] at h
    obtain ⟨-, rfl⟩ := h
    simp

/-- Characters up to the closing quote, and what follows it. -/
def readText (s : List Char) : Option (List Char × List Char) :=
  match s with
  | [] => none
  | '"' :: rest => some ([], rest)
  | '\\' :: rest =>
    match h : readEscape rest with
    | none => none
    | some (c, after) =>
      have := length_of_readEscape h
      (readText after).map fun (value, rest) => (c :: value, rest)
  | c :: rest =>
    if c < ' ' then none
    else (readText rest).map fun (value, rest) => (c :: value, rest)
termination_by s.length

theorem length_of_readText {s value rest : List Char}
    (h : readText s = some (value, rest)) : rest.length < s.length := by
  fun_induction readText s generalizing value rest with
  | case1 => simp at h
  | case2 tail =>
    simp only [Option.some.injEq, Prod.mk.injEq] at h
    obtain ⟨-, rfl⟩ := h
    simp
  | case3 => simp at h
  | case4 tail c after hescape hshort ih =>
    simp only [Option.map_eq_some_iff] at h
    obtain ⟨⟨v, r⟩, hread, hpair⟩ := h
    obtain ⟨rfl, rfl⟩ := Prod.mk.inj hpair
    have := ih hread
    simp only [List.length_cons]
    omega
  | case5 => simp at h
  | case6 c tail _ _ _ ih =>
    simp only [Option.map_eq_some_iff] at h
    obtain ⟨⟨v, r⟩, hread, hpair⟩ := h
    obtain ⟨rfl, rfl⟩ := Prod.mk.inj hpair
    have := ih hread
    simp only [List.length_cons]
    omega

/-! ## Numbers -/

/-- Appends digits to a number as long as it fits 64 bits; the digits from the
first that does not fit are left over. -/
def absorb (n : Nat) : List Char → Nat × List Char
  | [] => (n, [])
  | d :: rest =>
    let longer := n * 10 + (d.toNat - '0'.toNat)
    if longer < Nat.pow 2 64 then absorb longer rest else (n, d :: rest)

/-- The digits of a number that count, and the power of ten to take them times.
Digits left over before the point keep their places, those after it are cut. -/
def significand (whole fraction : List Char) (exponent : Int) : Nat × Int :=
  let (n, kept) := absorb 0 whole
  let (m, cut) := absorb n fraction
  (m, exponent + kept.length - (fraction.length - cut.length : Nat))

/-- Powers of ten up to this one are doubles. -/
def maxPower : Nat := 308

/-- A power of ten this great times these digits is worked out as a finite
double. -/
def fits (digits : Nat) (exponent : Int) : Bool :=
  digits = 0 || exponent ≤ 0 ||
    (exponent ≤ maxPower && !(Double.ofRounded digits exponent.toNat).isInfinite)

/-- The leading digits, if there are any, and what follows them. -/
def readDigits (s : List Char) : Option (List Char × List Char) :=
  match s.takeWhile Char.isDigit with
  | [] => none
  | digits => some (digits, s.dropWhile Char.isDigit)

/-- Digits before the point: a single zero, or digits not led by one. -/
def readWhole (s : List Char) : Option (List Char × List Char) :=
  match readDigits s with
  | some ('0' :: _ :: _, _) => none
  | whole? => whole?

/-- Digits after a point; without a point there are none. -/
def readFraction : List Char → Option (List Char × List Char)
  | '.' :: rest => readDigits rest
  | rest => some ([], rest)

/-- Value of the digits after the letter of an exponent. -/
def readScale (sign : Int) (s : List Char) : Option (Option Int × List Char) :=
  (readDigits s).map fun (digits, rest) => (some (sign * Nat.ofDigitChars 10 digits 0), rest)

def readSignedScale : List Char → Option (Option Int × List Char)
  | '-' :: rest => readScale (-1) rest
  | '+' :: rest => readScale 1 rest
  | rest => readScale 1 rest

/-- Exponent after its letter; without the letter there is none. -/
def readExponent : List Char → Option (Option Int × List Char)
  | 'e' :: rest => readSignedScale rest
  | 'E' :: rest => readSignedScale rest
  | rest => some (none, rest)

/-- The number with these parts. A negative zero is no integer. -/
def ofParts (negative : Bool) (whole fraction : List Char) (exponent? : Option Int) :
    Option Token :=
  let sign : Int := if negative then -1 else 1
  let magnitude := Nat.ofDigitChars 10 (whole ++ fraction) 0
  let bound := if negative then Nat.pow 2 63 + 1 else Nat.pow 2 64
  if fraction = [] ∧ exponent? = none ∧ magnitude < bound ∧ ¬ (negative ∧ magnitude = 0) then
    some (integer (sign * magnitude))
  else
    let scale := exponent?.getD 0
    let (digits, power) := significand whole fraction scale
    if fits digits power then some (decimal (sign * magnitude) (scale - fraction.length)) else none

def readNumber (negative : Bool) (s : List Char) : Option (Token × List Char) :=
  match readWhole s with
  | none => none
  | some (whole, s) =>
    match readFraction s with
    | none => none
    | some (fraction, s) =>
      match readExponent s with
      | none => none
      | some (exponent?, rest) =>
        (ofParts negative whole fraction exponent?).map fun token => (token, rest)

theorem length_of_readDigits {s digits rest : List Char}
    (h : readDigits s = some (digits, rest)) : rest.length < s.length := by
  unfold readDigits at h
  split at h
  · simp at h
  · rename_i hne
    simp only [Option.some.injEq, Prod.mk.injEq] at h
    obtain ⟨-, rfl⟩ := h
    have hlen := congrArg List.length (List.takeWhile_append_dropWhile (p := Char.isDigit) (l := s))
    have hpos := List.length_pos_iff.mpr hne
    rw [List.length_append] at hlen
    omega

theorem length_of_readWhole {s digits rest : List Char}
    (h : readWhole s = some (digits, rest)) : rest.length < s.length := by
  unfold readWhole at h
  split at h
  · simp at h
  · exact length_of_readDigits h

theorem length_of_readFraction {s digits rest : List Char}
    (h : readFraction s = some (digits, rest)) : rest.length ≤ s.length := by
  unfold readFraction at h
  split at h
  · have := length_of_readDigits h
    simp only [List.length_cons]
    omega
  · simp only [Option.some.injEq, Prod.mk.injEq] at h
    simp [h.2]

theorem length_of_readSignedScale {s rest : List Char} {e : Option Int}
    (h : readSignedScale s = some (e, rest)) : rest.length ≤ s.length := by
  have hscale : ∀ {sign s}, readScale sign s = some (e, rest) → rest.length ≤ s.length := by
    intro sign s h
    simp only [readScale, Option.map_eq_some_iff] at h
    obtain ⟨⟨digits, r⟩, hread, hpair⟩ := h
    obtain ⟨-, rfl⟩ := Prod.mk.inj hpair
    exact Nat.le_of_lt (length_of_readDigits hread)
  unfold readSignedScale at h
  split at h
  · exact Nat.le_succ_of_le (hscale h)
  · exact Nat.le_succ_of_le (hscale h)
  · exact hscale h

theorem length_of_readExponent {s rest : List Char} {e : Option Int}
    (h : readExponent s = some (e, rest)) : rest.length ≤ s.length := by
  unfold readExponent at h
  split at h
  · exact Nat.le_succ_of_le (length_of_readSignedScale h)
  · exact Nat.le_succ_of_le (length_of_readSignedScale h)
  · simp only [Option.some.injEq, Prod.mk.injEq] at h
    simp [h.2]

theorem length_of_readNumber {negative : Bool} {s rest : List Char} {token : Token}
    (h : readNumber negative s = some (token, rest)) : rest.length < s.length := by
  unfold readNumber at h
  split at h
  · simp at h
  · rename_i hwhole
    split at h
    · simp at h
    · rename_i hfraction
      split at h
      · simp at h
      · rename_i hexponent
        simp only [Option.map_eq_some_iff, Prod.mk.injEq] at h
        obtain ⟨_, -, -, rfl⟩ := h
        have h₁ := length_of_readWhole hwhole
        have h₂ := length_of_readFraction hfraction
        have h₃ := length_of_readExponent hexponent
        omega

/-! ## Token sequences -/

def isBlank (c : Char) : Bool :=
  c = ' ' || c = '\n' || c = '\t' || c = '\r'

/-- One token from a text that starts with no blank. -/
def readOne : List Char → Option (Token × List Char)
  | '[' :: rest => some (mark .openList, rest)
  | ']' :: rest => some (mark .closeList, rest)
  | '{' :: rest => some (mark .openRecord, rest)
  | '}' :: rest => some (mark .closeRecord, rest)
  | ':' :: rest => some (mark .colon, rest)
  | ',' :: rest => some (mark .comma, rest)
  | 'n' :: 'u' :: 'l' :: 'l' :: rest => some (null, rest)
  | 't' :: 'r' :: 'u' :: 'e' :: rest => some (bool true, rest)
  | 'f' :: 'a' :: 'l' :: 's' :: 'e' :: rest => some (bool false, rest)
  | '"' :: rest => (readText rest).map fun (value, rest) => (text value, rest)
  | '-' :: rest => readNumber true rest
  | s => readNumber false s

theorem length_of_readOne {s rest : List Char} {token : Token}
    (h : readOne s = some (token, rest)) : rest.length < s.length := by
  unfold readOne at h
  split at h
  case h_10 =>
    simp only [Option.map_eq_some_iff, Prod.mk.injEq] at h
    obtain ⟨⟨value, r⟩, hread, -, rfl⟩ := h
    exact Nat.lt_succ_of_lt (length_of_readText hread)
  case h_11 => exact Nat.lt_succ_of_lt (length_of_readNumber h)
  case h_12 => exact length_of_readNumber h
  all_goals
    simp only [Option.some.injEq, Prod.mk.injEq] at h
    obtain ⟨-, rfl⟩ := h
    simp only [List.length_cons]
    omega

/-- All tokens of a text. -/
def readAll (s : List Char) : Option (List Token) :=
  match s with
  | [] => some []
  | c :: tail =>
    if isBlank c then readAll tail
    else
      match h : readOne (c :: tail) with
      | none => none
      | some (token, rest) =>
        have := length_of_readOne h
        (readAll rest).map (token :: ·)
termination_by s.length
decreasing_by
  · exact Nat.lt_succ_self _
  · assumption

end Token

end Switchboard.Json
