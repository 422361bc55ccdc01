/-!
# Blank characters

The White_Space property, and the two cuts made by it: the blanks around a
text are dropped, and a text falls into the words between its blanks. Neither
the zero-width space nor the separators below U+0020 are blank.
-/

namespace Switchboard.Text

/-- Inclusive ranges of code points with the White_Space property. -/
def blankRanges : List (Nat × Nat) :=
  [(0x09, 0x0D), (0x20, 0x20), (0x85, 0x85), (0xA0, 0xA0), (0x1680, 0x1680),
   (0x2000, 0x200A), (0x2028, 0x2029), (0x202F, 0x202F), (0x205F, 0x205F),
   (0x3000, 0x3000)]

def isBlank (c : Char) : Bool :=
  blankRanges.any fun (lo, hi) => lo ≤ c.toNat && c.toNat ≤ hi

theorem isBlank_of_isDigit {c : Char} (h : c.isDigit = true) : isBlank c = false := by
  have hrange : 48 ≤ c.toNat ∧ c.toNat ≤ 57 := by
    simpa [Char.isDigit, UInt32.le_iff_toNat_le] using h
  simp [isBlank, blankRanges]
  omega

/-- Drops from both ends what satisfies `p`. -/
def strip (p : Char → Bool) (s : List Char) : List Char :=
  ((s.dropWhile p).reverse.dropWhile p).reverse

/-- Drops the blanks at both ends. -/
def trim (s : List Char) : List Char :=
  strip isBlank s

/-- The maximal runs of non-blank characters, in order. -/
def words (s : List Char) : List (List Char) :=
  (s.splitOnP isBlank).filter (· ≠ [])

@[simp] theorem trim_nil : trim [] = [] := rfl

@[simp] theorem words_nil : words [] = [] := rfl

end Switchboard.Text
