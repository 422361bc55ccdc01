import Mathlib.Data.List.Basic
import Switchboard.Json.Printer
import Switchboard.Json.Token

/-!
# JSON tokens written and read

A written string is read up to its own closing quote, since each quote and each
backslash inside it stands behind a backslash. A written integer is read up to
what follows it, which is a mark or the end.
-/

namespace Switchboard.Json

variable {s rest : List Char} {c : Char} {k n : Nat} {t : Token}

/-! ## Characters of a string -/

theorem hexDigit?_hexDigit (h : k < 16) : Text.hexDigit? (hexDigit k) = some k := by
  have hall : ∀ k < 16, Text.hexDigit? (hexDigit k) = some k := by decide
  exact hall k h

/-- Four digits are enough for a code unit. -/
theorem readUnit_digits (h : n < 0x10000) (rest : List Char) :
    Token.readUnit (hexDigit (n / 4096 % 16) :: hexDigit (n / 256 % 16) ::
      hexDigit (n / 16 % 16) :: hexDigit (n % 16) :: rest) = some (n, rest) := by
  have hlt (m : Nat) : m % 16 < 16 := Nat.mod_lt m (by decide)
  have hvalue : ((n / 4096 % 16 * 16 + n / 256 % 16) * 16 + n / 16 % 16) * 16 + n % 16 = n := by
    omega
  simp only [Token.readUnit, hexDigit?_hexDigit (hlt _), Option.bind_eq_bind, Option.bind_some,
    Option.pure_def, hvalue]

theorem readText_escape {after : List Char} (h : Token.readEscape s = some (c, after)) :
    Token.readText ('\\' :: s) =
      (Token.readText after).map fun (value, rest) => (c :: value, rest) := by
  rw [Token.readText]
  split
  · rename_i hnone
    rw [h] at hnone
    cases hnone
  · rename_i d found hsome
    rw [h] at hsome
    obtain ⟨rfl, rfl⟩ := Prod.mk.inj (Option.some.inj hsome)
    rfl

theorem readText_plain (hquote : c ≠ '"') (hbackslash : c ≠ '\\') (hcontrol : ¬c < ' ')
    (s : List Char) :
    Token.readText (c :: s) = (Token.readText s).map fun (value, rest) => (c :: value, rest) := by
  rw [Token.readText]
  · exact if_neg hcontrol
  · exact hquote
  · exact hbackslash

/-- A control character is no half of a pair. -/
theorem readEscape_control (h : c < ' ') (rest : List Char) :
    Token.readEscape ((writeUnit c.toNat).tail ++ rest) = some (c, rest) := by
  have hsmall : c.toNat < 32 := h
  have hunit := readUnit_digits (n := c.toNat) (by omega) rest
  have hhigh : ¬(0xD800 ≤ c.toNat ∧ c.toNat < 0xDC00) := by omega
  have hlow : ¬(0xDC00 ≤ c.toNat ∧ c.toNat < 0xE000) := by omega
  have hhead : (writeUnit c.toNat).tail ++ rest =
      'u' :: hexDigit (c.toNat / 4096 % 16) :: hexDigit (c.toNat / 256 % 16) ::
        hexDigit (c.toNat / 16 % 16) :: hexDigit (c.toNat % 16) :: rest := rfl
  rw [hhead, Token.readEscape]
  simp only [hunit, if_neg hhigh, if_neg hlow, Char.ofNat_toNat]

theorem readText_writeChar (c : Char) (s : List Char) :
    Token.readText (writeChar c ++ s) =
      (Token.readText s).map fun (value, rest) => (c :: value, rest) := by
  unfold writeChar
  split
  case h_8 hquote hbackslash _ _ _ _ _ =>
    by_cases hcontrol : c < ' '
    · rw [if_pos hcontrol]
      exact readText_escape (readEscape_control hcontrol s)
    · rw [if_neg hcontrol]
      exact readText_plain hquote hbackslash hcontrol s
  all_goals exact readText_escape rfl

theorem readText_write (s rest : List Char) :
    Token.readText (s.flatMap writeChar ++ '"' :: rest) = some (s, rest) := by
  induction s with
  | nil =>
      rw [List.flatMap_nil, List.nil_append, Token.readText]
  | cons c s ih =>
      rw [List.flatMap_cons, List.append_assoc, readText_writeChar, ih]
      rfl

/-! ## Integers -/

/-- Only zero is written with a leading zero. -/
theorem head_decimal (h : n ≠ 0) : (Text.decimal n).head? ≠ some '0' := by
  induction n using Nat.strongRecOn with
  | _ n ih =>
      unfold Text.decimal
      by_cases hsmall : n < 10
      · have hdigit : ∀ k < 10, k ≠ 0 → [Nat.digitChar k].head? ≠ some '0' := by decide
        rw [Nat.toDigits_of_lt_base hsmall]
        exact hdigit n hsmall h
      · have hshorter := ih (n / 10) (by omega) (by omega)
        rw [Nat.toDigits_of_base_le (by decide) (by omega),
          List.head?_append_of_ne_nil _ Nat.toDigits_ne_nil]
        exact hshorter

/-- What may follow a value: a mark, or the end. -/
def Ends (rest : List Char) : Prop :=
  ∀ c ∈ rest.head?, c = ',' ∨ c = ']' ∨ c = '}'

theorem Ends.readWhole (h : Ends rest) (n : Nat) :
    Token.readWhole (Text.decimal n ++ rest) = some (Text.decimal n, rest) := by
  have hdigits : ∀ c ∈ Text.decimal n, c.isDigit = true := fun _ => Text.isDigit_of_mem_decimal
  have hstop : rest.takeWhile Char.isDigit = [] ∧ rest.dropWhile Char.isDigit = rest := by
    cases rest with
    | nil => exact ⟨rfl, rfl⟩
    | cons c rest => rcases h c rfl with rfl | rfl | rfl <;> exact ⟨rfl, rfl⟩
  have hread : Token.readDigits (Text.decimal n ++ rest) = some (Text.decimal n, rest) := by
    unfold Token.readDigits
    rw [List.takeWhile_append_of_pos hdigits, List.dropWhile_append_of_pos hdigits, hstop.1,
      hstop.2, List.append_nil]
    split
    · rename_i hnil
      exact absurd hnil (Text.decimal_ne_nil n)
    · rfl
  unfold Token.readWhole
  rw [hread]
  split
  · rename_i second more after heq
    obtain ⟨hdecimal, -⟩ := Prod.mk.inj (Option.some.inj heq)
    by_cases hzero : n = 0
    · rw [hzero] at hdecimal
      cases hdecimal
    · exact absurd (by rw [hdecimal]; rfl) (head_decimal hzero)
  · rfl

theorem Ends.readNumber (h : Ends rest) {negative : Bool}
    (hbound : n < if negative then Nat.pow 2 63 + 1 else Nat.pow 2 64)
    (hzero : ¬(negative = true ∧ n = 0)) :
    Token.readNumber negative (Text.decimal n ++ rest) =
      some (.integer ((if negative then -1 else 1) * n), rest) := by
  have hfraction : Token.readFraction rest = some ([], rest) := by
    cases rest with
    | nil => rfl
    | cons c rest => rcases h c rfl with rfl | rfl | rfl <;> rfl
  have hexponent : Token.readExponent rest = some (none, rest) := by
    cases rest with
    | nil => rfl
    | cons c rest => rcases h c rfl with rfl | rfl | rfl <;> rfl
  have hvalue : Nat.ofDigitChars 10 (Text.decimal n ++ []) 0 = n := by
    rw [List.append_nil, Text.decimal, Nat.ofDigitChars_ten_toDigits]
  have hparts : Token.ofParts negative (Text.decimal n) [] none =
      some (.integer ((if negative then -1 else 1) * n)) := by
    unfold Token.ofParts
    dsimp only
    rw [hvalue, if_pos ⟨rfl, rfl, hbound, hzero⟩]
  unfold Token.readNumber
  simp only [h.readWhole, hfraction, hexponent, hparts, Option.map_some]

theorem Ends.readOne_integer (h : Ends rest) {i : Int} (hleast : -0x8000000000000000 ≤ i)
    (hmost : i < 0x10000000000000000) :
    Token.readOne (writeInteger i ++ rest) = some (.integer i, rest) := by
  unfold writeInteger
  by_cases hnegative : i < 0
  · have hbound : i.natAbs < if true then Nat.pow 2 63 + 1 else Nat.pow 2 64 := by
      rw [if_pos rfl]
      show i.natAbs < 0x8000000000000001
      omega
    have hread := h.readNumber hbound (by omega)
    rw [if_pos hnegative, List.cons_append, Token.readOne, hread]
    have hvalue : (-1 : Int) * i.natAbs = i := by omega
    simp only [if_true, hvalue]
  · have hbound : i.natAbs < if false then Nat.pow 2 63 + 1 else Nat.pow 2 64 := by
      rw [if_neg (by decide)]
      show i.natAbs < 0x10000000000000000
      omega
    have hread := h.readNumber hbound (by simp)
    have hvalue : (1 : Int) * i.natAbs = i := by omega
    have hdigit : ∀ c tail, Text.decimal i.natAbs ++ rest = c :: tail → c.isDigit = true := by
      intro c tail heq
      rcases List.append_eq_cons_iff.mp heq with ⟨hnil, -⟩ | ⟨digits, hdigits, -⟩
      · exact absurd hnil (Text.decimal_ne_nil _)
      · apply Text.isDigit_of_mem_decimal
        rw [hdigits]
        exact List.mem_cons_self
    rw [if_neg hnegative]
    unfold Token.readOne
    split
    case h_12 =>
      rw [hread]
      simp only [Bool.false_eq_true, if_false, hvalue]
    all_goals
      rename_i heq
      exact absurd (hdigit _ _ heq) (by decide)

end Switchboard.Json
