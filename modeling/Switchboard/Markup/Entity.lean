import Switchboard.Text.Cut
import Switchboard.Text.Numeral

/-!
# Character references in markup

Five characters have names that stand for them between an ampersand and a
semicolon; any other character can be given by its number. Writing replaces
exactly the five; reading refuses every reference that stands for nothing.
-/

namespace Switchboard.Markup

/-- Name of a character that must not stand for itself. -/
def nameOf? : Char → Option (List Char)
  | '<' => some ['l', 't']
  | '>' => some ['g', 't']
  | '&' => some ['a', 'm', 'p']
  | '\'' => some ['a', 'p', 'o', 's']
  | '"' => some ['q', 'u', 'o', 't']
  | _ => none

def ofName? : List Char → Option Char
  | ['l', 't'] => some '<'
  | ['g', 't'] => some '>'
  | ['a', 'm', 'p'] => some '&'
  | ['a', 'p', 'o', 's'] => some '\''
  | ['q', 'u', 'o', 't'] => some '"'
  | _ => none

def escapeChar (c : Char) : List Char :=
  match nameOf? c with
  | some name => '&' :: name ++ [';']
  | none => [c]

def escape (s : List Char) : List Char :=
  s.flatMap escapeChar

/-- A character by its code point, NUL and surrogates excepted. -/
def ofCode? (n : Nat) : Option Char :=
  if h : n.isValidChar ∧ n ≠ 0 then some (Char.ofNatAux n h.1) else none

/-- The character a reference stands for, ampersand and semicolon left
out. -/
def resolve? : List Char → Option Char
  | '#' :: 'x' :: digits => (Text.hexadecimal? digits).bind ofCode?
  | '#' :: digits => (Text.digits? digits).bind ofCode?
  | name => ofName? name

/-- Body of a reference up to its semicolon, and what follows. -/
def readReference : List Char → Option (List Char × List Char)
  | [] => none
  | ';' :: rest => some ([], rest)
  | '&' :: _ => none
  | c :: rest => (readReference rest).map fun (body, rest) => (c :: body, rest)

theorem length_of_readReference {s body rest : List Char}
    (h : readReference s = some (body, rest)) : rest.length < s.length := by
  fun_induction readReference s generalizing body with
  | case1 => simp at h
  | case2 tail =>
    simp only [Option.some.injEq, Prod.mk.injEq] at h
    obtain ⟨-, rfl⟩ := h
    simp
  | case3 => simp at h
  | case4 c tail _ _ ih =>
    simp only [Option.map_eq_some_iff, Prod.mk.injEq] at h
    obtain ⟨⟨b, r⟩, hread, -, rfl⟩ := h
    exact Nat.lt_succ_of_lt (ih hread)

/-- Replaces every reference by its character. -/
def unescape (s : List Char) : Option (List Char) :=
  match s with
  | [] => some []
  | '&' :: rest =>
    match h : readReference rest with
    | none => none
    | some (body, after) =>
      have := length_of_readReference h
      (resolve? body).bind fun c => (unescape after).map (c :: ·)
  | c :: rest => (unescape rest).map (c :: ·)
termination_by s.length

end Switchboard.Markup
