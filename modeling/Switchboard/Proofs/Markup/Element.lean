import Mathlib.Data.List.Basic
import Switchboard.Markup.Attribute

/-!
# Elements written and read

An element with one attribute, its value in double quotes, is read as written,
whatever the value holds besides such quotes: a bracket in quotes ends no tag,
and a blank in quotes no attribute.
-/

namespace Switchboard.Markup

variable {s name value rest : List Char} {tag? : Option Tag} {quote : Char}

/-! ## Tags one after another -/

theorem scan_of_readMarkup (h : readMarkup s = some (tag?, rest)) :
    scan ('<' :: s) = (scan rest).map (tag?.toList ++ ·) := by
  rw [scan]
  split
  · rename_i hnone
    rw [h] at hnone
    cases hnone
  · rename_i found after hsome
    rw [h] at hsome
    obtain ⟨rfl, rfl⟩ := Prod.mk.inj (Option.some.inj hsome)
    rfl

theorem nested_append_empties {tags : List Tag}
    (h : ∀ tag ∈ tags, ∃ name rest, tag = .empty name rest) (opened : List (List Char))
    (later : List Tag) :
    nested opened (tags ++ later) = nested opened later := by
  induction tags with
  | nil => rfl
  | cons tag tags ih =>
      obtain ⟨⟨name, rest, rfl⟩, htags⟩ := List.forall_mem_cons.mp h
      exact ih htags

/-! ## The inside of a tag -/

/-- Markup that starts with none of the three signs is an element's. -/
theorem readMarkup_element {c : Char} (h : c ≠ '!' ∧ c ≠ '?' ∧ c ≠ '/') (s : List Char) :
    readMarkup (c :: s) =
      (readInside none (c :: s)).map fun (inside, rest) => (some (.ofInside inside), rest) := by
  unfold readMarkup
  split
  case h_1 heq => cases heq
  case h_8 => rfl
  all_goals
    rename_i heq
    obtain ⟨hc, -⟩ := List.cons.inj heq
    simp [hc] at h

/-- Nothing is skipped outside of quotes but brackets and quotes. -/
theorem readInside_plain (h : ∀ c ∈ s, c ≠ '>' ∧ c ≠ '"' ∧ c ≠ '\'') (rest : List Char) :
    readInside none (s ++ rest) =
      (readInside none rest).map fun (inside, after) => (s ++ inside, after) := by
  induction s with
  | nil =>
      rw [List.nil_append]
      exact Option.map_id'.symm
  | cons c s ih =>
      obtain ⟨⟨hclose, hdouble, hsingle⟩, hs⟩ := List.forall_mem_cons.mp h
      rw [List.cons_append, readInside]
      simp only [hclose, hdouble, hsingle, or_self, and_false, if_false]
      rw [ih hs, Option.map_map]
      rfl

/-- A value in quotes is passed over as a whole, brackets included. -/
theorem readInside_quoted (h : quote ∉ value) (rest : List Char) :
    readInside (some quote) (value ++ quote :: rest) =
      (readInside none rest).map fun (inside, after) => (value ++ quote :: inside, after) := by
  induction value with
  | nil =>
      rw [List.nil_append, readInside]
      simp
  | cons c value ih =>
      rw [List.mem_cons, not_or] at h
      rw [List.cons_append, readInside]
      simp only [Ne.symm h.1, if_false, reduceCtorEq, false_and]
      rw [ih h.2, Option.map_map]
      rfl

theorem ofInside_slash (hname : ∀ c ∈ name, isBlank c = false) (rest : List Char) :
    Tag.ofInside (name ++ ' ' :: rest ++ ['/']) = .empty name (' ' :: rest) := by
  have htake : (name ++ ' ' :: rest).takeWhile (!isBlank ·) = name := by
    rw [List.takeWhile_append_of_pos (by simpa using hname)]
    simp [isBlank]
  have hdrop : (name ++ ' ' :: rest).dropWhile (!isBlank ·) = ' ' :: rest := by
    rw [List.dropWhile_append_of_pos (by simpa using hname)]
    simp [isBlank]
  unfold Tag.ofInside
  rw [List.getLast?_concat, List.dropLast_concat]
  show Tag.empty _ _ = _
  rw [htake, hdrop]

/-! ## Attributes -/

/-- An attribute as it is written after the name of its element. -/
def writeAttribute (name value : List Char) : List Char :=
  name ++ '=' :: '"' :: value ++ ['"']

theorem readOne_write (hne : name ≠ []) (hname : ∀ c ∈ name, isNameChar c = true)
    (hvalue : '"' ∉ value) (rest : List Char) :
    readOne (writeAttribute name value ++ rest) = some (⟨name, value⟩, rest) := by
  cases name with
  | nil => exact absurd rfl hne
  | cons c name =>
      obtain ⟨-, hrest⟩ := List.forall_mem_cons.mp hname
      have htake : ∀ t, (name ++ '=' :: t).takeWhile isNameChar = name := by
        intro t
        rw [List.takeWhile_append_of_pos hrest]
        simp [isNameChar]
      have hdrop : ∀ t, (name ++ '=' :: t).dropWhile isNameChar = '=' :: t := by
        intro t
        rw [List.dropWhile_append_of_pos hrest]
        simp [isNameChar]
      have hequals : ∀ t, readEquals ('=' :: '"' :: t) = some ('"' :: t) := fun t => rfl
      have hquoted : readQuoted ('"' :: (value ++ '"' :: rest)) = some (value, rest) :=
        Text.cutFirst_append rest hvalue
      simp [writeAttribute, readOne, readName, htake, hdrop, hequals, hquoted]

theorem readFrom_of_readOne {seen : List (List Char)} {a : Attribute} {c : Char}
    (hskip : skipBlanks s = c :: value) (hread : readOne (c :: value) = some (a, rest))
    (hnew : a.name ∉ seen) :
    readFrom seen s = (readFrom (a.name :: seen) rest).map (a :: ·) := by
  rw [readFrom]
  split
  · rename_i hnil
    rw [hskip] at hnil
    cases hnil
  · rename_i d tail hcons
    rw [hskip] at hcons
    obtain ⟨rfl, rfl⟩ := List.cons.inj hcons
    split
    · rename_i hnone
      rw [hread] at hnone
      cases hnone
    · rename_i found after hsome
      rw [hread] at hsome
      obtain ⟨rfl, rfl⟩ := Prod.mk.inj (Option.some.inj hsome)
      exact if_neg hnew

theorem attributes?_write (hne : name ≠ []) (hname : ∀ c ∈ name, isNameChar c = true)
    (hvalue : '"' ∉ value) :
    attributes? (' ' :: writeAttribute name value) = some [⟨name, value⟩] := by
  have hread := readOne_write hne hname hvalue []
  rw [List.append_nil] at hread
  have hend : readFrom [name] [] = some [] := by
    rw [readFrom]
    rfl
  cases name with
  | nil => exact absurd rfl hne
  | cons c name =>
      have hblank : isBlank c = false := by
        have hc := hname c List.mem_cons_self
        simp only [isNameChar, Bool.and_eq_true, Bool.not_eq_true'] at hc
        exact hc.1
      have hskip : skipBlanks (' ' :: writeAttribute (c :: name) value) =
          writeAttribute (c :: name) value := by
        unfold skipBlanks
        rw [List.dropWhile_cons_of_pos (by decide)]
        exact List.dropWhile_cons_of_neg (by simp [hblank])
      unfold attributes?
      rw [readFrom_of_readOne hskip hread List.not_mem_nil, hend]
      rfl

end Switchboard.Markup
