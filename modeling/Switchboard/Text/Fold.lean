/-!
# Letter case

Names are compared without regard to ASCII letter case. Folding touches the
letters A to Z only, so a text and its folded form have equally many
characters and differ in no character beyond U+007F.
-/

namespace Switchboard.Text

/-- Lower-case form, ASCII letters only. -/
def lower (s : List Char) : List Char :=
  s.map Char.toLower

/-- Upper-case form, ASCII letters only. -/
def upper (s : List Char) : List Char :=
  s.map Char.toUpper

/-- Equal up to ASCII letter case. -/
def sameFolded (a b : List Char) : Bool :=
  lower a == lower b

/-- Names are equal up to ASCII letter case. -/
def sameName (a b : String) : Bool :=
  sameFolded a.toList b.toList

@[simp] theorem length_lower (s : List Char) : (lower s).length = s.length :=
  List.length_map _

theorem lower_append (s t : List Char) : lower (s ++ t) = lower s ++ lower t :=
  List.map_append

theorem sameFolded_iff {a b : List Char} : sameFolded a b = true ↔ lower a = lower b := by
  simp [sameFolded]

@[simp] theorem sameFolded_refl (a : List Char) : sameFolded a a = true :=
  sameFolded_iff.mpr rfl

theorem sameFolded_comm (a b : List Char) : sameFolded a b = sameFolded b a := by
  rw [Bool.eq_iff_iff, sameFolded_iff, sameFolded_iff]
  exact eq_comm

theorem sameFolded_trans {a b c : List Char} (hab : sameFolded a b = true)
    (hbc : sameFolded b c = true) : sameFolded a c = true := by
  rw [sameFolded_iff] at *
  exact hab.trans hbc

theorem length_eq_of_sameFolded {a b : List Char} (h : sameFolded a b = true) :
    a.length = b.length := by
  rw [← length_lower a, sameFolded_iff.mp h, length_lower]

/-- A character without letter case is in neither form of a text or in both. -/
theorem not_mem_of_sameFolded {a b : List Char} {c : Char} (h : sameFolded a b = true)
    (hc : c.toLower = c) (hnot : c ∉ lower b) : c ∉ a := by
  intro hmem
  rw [← sameFolded_iff.mp h] at hnot
  exact hnot (List.mem_map.mpr ⟨c, hmem, hc⟩)

theorem sameName_iff {a b : String} :
    sameName a b = true ↔ lower a.toList = lower b.toList := by
  simp [sameName, sameFolded]

@[simp] theorem sameName_refl (a : String) : sameName a a = true :=
  sameFolded_refl a.toList

theorem sameName_comm (a b : String) : sameName a b = sameName b a :=
  sameFolded_comm a.toList b.toList

theorem sameName_trans {a b c : String} (hab : sameName a b = true)
    (hbc : sameName b c = true) : sameName a c = true :=
  sameFolded_trans hab hbc

/-- Two spellings of a name are compared alike with any third one. -/
theorem sameName_congr {a b c : String} (h : sameName a b = true) :
    sameName a c = sameName b c := by
  rw [sameName_iff] at h
  rw [Bool.eq_iff_iff, sameName_iff, sameName_iff, h]

/-- What is no spelling of a name differs from every spelling of it. -/
theorem sameName_eq_false_of {a b c : String} (hab : sameName a b = true)
    (hac : sameName a c = false) : sameName c b = false := by
  rw [sameName_comm, ← sameName_congr hab, hac]

end Switchboard.Text
