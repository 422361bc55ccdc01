import Switchboard.Markup.Scanner

/-!
# Attributes of an element

An attribute is a name, an equals sign and a value in either kind of quotes,
blanks allowed around the sign. A name may begin with any character but a
blank, even with an equals sign or a quote, and ends before the next blank or
equals sign. Blanks between attributes may be left out. No two attributes of
an element have the same full name.
-/

namespace Switchboard.Markup

/-- The value is as written, references unread. -/
structure Attribute where
  name : List Char
  value : List Char
  deriving DecidableEq, Repr

def skipBlanks (s : List Char) : List Char :=
  s.dropWhile isBlank

/-- A value between quotes of one kind, and what follows. -/
def readQuoted : List Char → Option (List Char × List Char)
  | '"' :: rest => Text.cutFirst '"' rest
  | '\'' :: rest => Text.cutFirst '\'' rest
  | _ => none

def isNameChar (c : Char) : Bool :=
  !isBlank c && c ≠ '='

/-- The name in front of a text that starts with no blank. Its first
character is never the sign that ends it. -/
def readName : List Char → Option (List Char × List Char)
  | [] => none
  | c :: rest => some (c :: rest.takeWhile isNameChar, rest.dropWhile isNameChar)

def readEquals (s : List Char) : Option (List Char) :=
  match skipBlanks s with
  | '=' :: rest => some (skipBlanks rest)
  | _ => none

/-- One attribute from a text that starts with no blank. -/
def readOne (s : List Char) : Option (Attribute × List Char) :=
  (readName s).bind fun (name, s) =>
    (readEquals s).bind fun s =>
      (readQuoted s).map fun (value, rest) => ({ name, value }, rest)

theorem length_of_skipBlanks (s : List Char) : (skipBlanks s).length ≤ s.length :=
  (List.dropWhile_sublist _).length_le

theorem length_of_readQuoted {s value rest : List Char}
    (h : readQuoted s = some (value, rest)) : rest.length < s.length := by
  unfold readQuoted at h
  split at h
  · have hlen := congrArg List.length (Text.eq_append_of_cutFirst h).1
    simp only [List.length_append, List.length_cons] at hlen ⊢
    omega
  · have hlen := congrArg List.length (Text.eq_append_of_cutFirst h).1
    simp only [List.length_append, List.length_cons] at hlen ⊢
    omega
  · simp at h

theorem length_of_readEquals {s rest : List Char} (h : readEquals s = some rest) :
    rest.length < s.length := by
  unfold readEquals at h
  split at h
  · rename_i tail heq
    simp only [Option.some.injEq] at h
    have h₁ := length_of_skipBlanks s
    have h₂ := length_of_skipBlanks tail
    rw [heq] at h₁
    simp only [List.length_cons] at h₁
    rw [← h]
    omega
  · simp at h

theorem length_of_readName {s name rest : List Char}
    (h : readName s = some (name, rest)) : rest.length < s.length := by
  match s with
  | [] => simp [readName] at h
  | c :: tail =>
    simp only [readName, Option.some.injEq, Prod.mk.injEq] at h
    rw [← h.2]
    exact Nat.lt_succ_of_le (List.dropWhile_sublist _).length_le

theorem length_of_readOne {s rest : List Char} {a : Attribute}
    (h : readOne s = some (a, rest)) : rest.length < s.length := by
  simp only [readOne, Option.bind_eq_some_iff, Option.map_eq_some_iff, Prod.mk.injEq] at h
  obtain ⟨⟨name, s₁⟩, hname, s₂, hequals, ⟨value, r⟩, hquoted, -, rfl⟩ := h
  have h₁ := length_of_readName hname
  have h₂ := length_of_readEquals hequals
  have h₃ := length_of_readQuoted hquoted
  simp only at h₁ h₂ h₃ ⊢
  omega

/-- Attributes in order; `seen` are the names that must not come again. -/
def readFrom (seen : List (List Char)) (s : List Char) : Option (List Attribute) :=
  match hs : skipBlanks s with
  | [] => some []
  | c :: tail =>
    match h : readOne (c :: tail) with
    | none => none
    | some (a, rest) =>
      have := length_of_readOne h
      have : (c :: tail).length ≤ s.length := hs ▸ length_of_skipBlanks s
      if a.name ∈ seen then none else (readFrom (a.name :: seen) rest).map (a :: ·)
termination_by s.length

/-- Attributes written after the name of an element. -/
def attributes? (s : List Char) : Option (List Attribute) :=
  readFrom [] s

end Switchboard.Markup
