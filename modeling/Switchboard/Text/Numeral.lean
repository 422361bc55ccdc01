/-!
# Numerals

A numeral is a non-empty run of ASCII digits, leading zeros allowed. Counts
take one optional plus sign, and signed values a plus or a minus sign; a
value that does not fit its bound is refused, never reduced. Hexadecimal
digits are read in either letter case.
-/

namespace Switchboard.Text

/-- Value of a non-empty run of ASCII digits. -/
def digits? (s : List Char) : Option Nat :=
  if s ≠ [] ∧ s.all Char.isDigit then some (Nat.ofDigitChars 10 s 0) else none

/-- Value of a numeral below `bound`, one leading plus sign allowed. -/
def natural? (bound : Nat) (s : List Char) : Option Nat :=
  let run := match s with
    | '+' :: rest => rest
    | run => run
  (digits? run).filter (· < bound)

/-- Value of a signed numeral in the range of a two's complement word of
`2 * half` values. -/
def integer? (half : Nat) (s : List Char) : Option Int :=
  match s with
  | '-' :: rest => ((digits? rest).filter (· ≤ half)).map fun n => -(n : Int)
  | _ => (natural? half s).map Int.ofNat

/-- Value of a hexadecimal digit, in either letter case. -/
def hexDigit? (c : Char) : Option Nat :=
  if '0' ≤ c ∧ c ≤ '9' then some (c.toNat - '0'.toNat)
  else if 'a' ≤ c ∧ c ≤ 'f' then some (c.toNat - 'a'.toNat + 10)
  else if 'A' ≤ c ∧ c ≤ 'F' then some (c.toNat - 'A'.toNat + 10)
  else none

/-- Value of digits in a base of at most sixteen, taken to be digits. -/
def ofHexDigits (base : Nat) (s : List Char) : Nat :=
  s.foldl (fun n c => n * base + (hexDigit? c).getD 0) 0

/-- Value of hexadecimal digits; there is at least one. -/
def hexadecimal? (s : List Char) : Option Nat :=
  if s ≠ [] ∧ s.all fun c => (hexDigit? c).isSome then some (ofHexDigits 16 s) else none

/-- Shortest decimal digits of a natural number. -/
def decimal (n : Nat) : List Char :=
  Nat.toDigits 10 n

theorem decimal_ne_nil (n : Nat) : decimal n ≠ [] :=
  Nat.toDigits_ne_nil

theorem isDigit_of_mem_decimal {n : Nat} {c : Char} (h : c ∈ decimal n) : c.isDigit = true :=
  Nat.isDigit_of_mem_toDigits (by decide) (by decide) h

theorem digits?_decimal (n : Nat) : digits? (decimal n) = some n := by
  have hdigits : (decimal n).all Char.isDigit = true :=
    List.all_eq_true.mpr fun _ => isDigit_of_mem_decimal
  rw [digits?, if_pos ⟨decimal_ne_nil n, hdigits⟩, decimal,
    Nat.ofDigitChars_toDigits (by decide) (by decide)]

theorem natural?_decimal {bound n : Nat} (h : n < bound) :
    natural? bound (decimal n) = some n := by
  have hplus : ∀ rest, decimal n ≠ '+' :: rest := by
    intro rest heq
    have hmem : '+' ∈ decimal n := by
      rw [heq]
      exact List.mem_cons_self
    exact absurd (isDigit_of_mem_decimal hmem) (by decide)
  unfold natural?
  split
  · rename_i rest heq
    exact absurd heq (hplus rest)
  · simp [digits?_decimal, h]

end Switchboard.Text
