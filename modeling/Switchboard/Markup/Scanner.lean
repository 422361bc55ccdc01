import Switchboard.Text.Cut
import Switchboard.Text.Fold

/-!
# Tags of a markup text

Only the tags count: text, comments, literal sections, instructions and
document types are passed over as a whole, wherever they stand. A bracket in
quotes ends no tag, be it a start or an end tag. A text may have any number
of roots and may end with elements still open, but an end tag closes the
innermost open element, by its exact name.
-/

namespace Switchboard.Markup

/-- Markup knows four blanks. -/
def isBlank (c : Char) : Bool :=
  c = ' ' || c = '\t' || c = '\n' || c = '\r'

/-- A tag. What follows the name of an element is kept unread. -/
inductive Tag
  | start (name rest : List Char)
  | empty (name rest : List Char)
  | close (name : List Char)
  deriving DecidableEq, Repr

/-! ## Ends of markup -/

/-- What follows the first `mark`. -/
def after? (mark : List Char) : List Char → Option (List Char)
  | [] => if mark = [] then some [] else none
  | c :: rest =>
    match Text.dropHead? mark (c :: rest) with
    | some rest => some rest
    | none => after? mark rest

/-- Inside of a tag up to the bracket that closes it, and what follows. A
bracket in quotes closes nothing. -/
def readInside (quote? : Option Char) : List Char → Option (List Char × List Char)
  | [] => none
  | c :: rest =>
    let next? := match quote? with
      | some q => if c = q then none else some q
      | none => if c = '"' ∨ c = '\'' then some c else none
    if quote? = none ∧ c = '>' then some ([], rest)
    else (readInside next? rest).map fun (inside, rest) => (c :: inside, rest)

/-- Inside of a document type up to the bracket that closes it, `depth` inner
brackets being open, and what follows. -/
def readDoctype (depth : Nat) : List Char → Option (List Char × List Char)
  | [] => none
  | '>' :: rest =>
    match depth with
    | 0 => some ([], rest)
    | depth + 1 => (readDoctype depth rest).map fun (inside, rest) => ('>' :: inside, rest)
  | c :: rest =>
    let depth := if c = '<' then depth + 1 else depth
    (readDoctype depth rest).map fun (inside, rest) => (c :: inside, rest)

/-! ## Markup after an opening bracket -/

/-- The element tag with this inside. Its name ends at the first blank; a
slash at the very end makes it empty. -/
def Tag.ofInside (inside : List Char) : Tag :=
  let split (s : List Char) := (s.takeWhile (!isBlank ·), s.dropWhile (!isBlank ·))
  match inside.getLast? with
  | some '/' =>
    let (name, rest) := split inside.dropLast
    .empty name rest
  | _ =>
    let (name, rest) := split inside
    .start name rest

/-- Drops blanks at the end, unless there is nothing else. -/
def trimEnd (s : List Char) : List Char :=
  match s.reverse.dropWhile isBlank with
  | [] => s
  | kept => kept.reverse

/-- A document type has its keyword in any letter case and something besides
blanks after it. -/
def isDoctype (inside : List Char) : Bool :=
  Text.sameFolded (inside.take 7) "doctype".toList && (inside.drop 7).any (!isBlank ·)

/-- Reads the markup that starts with a bracket, given what follows the
bracket: the tag, if it is one, and what comes next. -/
def readMarkup : List Char → Option (Option Tag × List Char)
  | [] => none
  | '!' :: '-' :: '-' :: rest => (after? "-->".toList rest).map fun rest => (none, rest)
  | '!' :: '[' :: 'C' :: 'D' :: 'A' :: 'T' :: 'A' :: '[' :: rest =>
    (after? "]]>".toList rest).map fun rest => (none, rest)
  | '!' :: rest =>
    (readDoctype 0 rest).bind fun (inside, rest) =>
      if isDoctype inside then some (none, rest) else none
  | '?' :: '>' :: _ => none
  | '?' :: rest => (after? "?>".toList rest).map fun rest => (none, rest)
  | '/' :: rest =>
    (readInside none rest).map fun (name, rest) => (some (.close (trimEnd name)), rest)
  | s => (readInside none s).map fun (inside, rest) => (some (.ofInside inside), rest)

theorem length_of_after? {mark s rest : List Char} (h : after? mark s = some rest) :
    rest.length ≤ s.length := by
  induction s with
  | nil =>
    simp only [after?] at h
    split at h
    · simp only [Option.some.injEq] at h
      simp [← h]
    · simp at h
  | cons c tail ih =>
    simp only [after?] at h
    split at h
    · rename_i r hr
      simp only [Option.some.injEq] at h
      subst h
      have hlen := congrArg List.length (Text.dropHead?_eq_some_iff.mp hr)
      rw [List.length_append] at hlen
      omega
    · exact Nat.le_succ_of_le (ih h)

theorem length_of_readInside {quote? : Option Char} {s inside rest : List Char}
    (h : readInside quote? s = some (inside, rest)) : rest.length < s.length := by
  induction s generalizing quote? inside with
  | nil => simp [readInside] at h
  | cons c tail ih =>
    simp only [readInside] at h
    split at h
    · simp only [Option.some.injEq, Prod.mk.injEq] at h
      simp [h.2]
    · simp only [Option.map_eq_some_iff, Prod.mk.injEq] at h
      obtain ⟨⟨i, r⟩, hread, -, rfl⟩ := h
      exact Nat.lt_succ_of_lt (ih hread)

theorem length_of_readDoctype {depth : Nat} {s inside rest : List Char}
    (h : readDoctype depth s = some (inside, rest)) : rest.length < s.length := by
  fun_induction readDoctype depth s generalizing inside with
  | case1 => simp at h
  | case2 tail =>
    simp only [Option.some.injEq, Prod.mk.injEq] at h
    simp [h.2]
  | case3 tail depth ih =>
    simp only [Option.map_eq_some_iff, Prod.mk.injEq] at h
    obtain ⟨⟨i, r⟩, hread, -, rfl⟩ := h
    exact Nat.lt_succ_of_lt (ih hread)
  | case4 =>
    rename_i ih
    simp only [Option.map_eq_some_iff, Prod.mk.injEq] at h
    obtain ⟨⟨i, r⟩, hread, -, rfl⟩ := h
    exact Nat.lt_succ_of_lt (ih hread)

theorem length_of_readMarkup {s rest : List Char} {tag? : Option Tag}
    (h : readMarkup s = some (tag?, rest)) : rest.length ≤ s.length := by
  unfold readMarkup at h
  split at h
  case h_1 => simp at h
  case h_5 => simp at h
  case h_4 =>
    simp only [Option.bind_eq_some_iff] at h
    obtain ⟨⟨inside, r⟩, hread, hif⟩ := h
    split at hif
    · simp only [Option.some.injEq, Prod.mk.injEq] at hif
      have := length_of_readDoctype hread
      simp only [List.length_cons, ← hif.2]
      omega
    · simp at hif
  case h_7 =>
    simp only [Option.map_eq_some_iff, Prod.mk.injEq] at h
    obtain ⟨⟨name, r⟩, hread, -, rfl⟩ := h
    exact Nat.le_succ_of_le (Nat.le_of_lt (length_of_readInside hread))
  case h_8 =>
    simp only [Option.map_eq_some_iff, Prod.mk.injEq] at h
    obtain ⟨⟨inside, r⟩, hread, -, rfl⟩ := h
    exact Nat.le_of_lt (length_of_readInside hread)
  all_goals
    simp only [Option.map_eq_some_iff, Prod.mk.injEq] at h
    obtain ⟨r, hread, -, rfl⟩ := h
    have := length_of_after? hread
    simp only [List.length_cons]
    omega

/-! ## Whole texts -/

/-- Tags of a text, in order. -/
def scan (s : List Char) : Option (List Tag) :=
  match s with
  | [] => some []
  | '<' :: rest =>
    match h : readMarkup rest with
    | none => none
    | some (tag?, after) =>
      have := length_of_readMarkup h
      (scan after).map (tag?.toList ++ ·)
  | _ :: rest => scan rest
termination_by s.length

/-- End tags close the innermost open element; `opened` are the names of the
open elements, innermost first. -/
def nested (opened : List (List Char)) : List Tag → Bool
  | [] => true
  | .start name _ :: rest => nested (name :: opened) rest
  | .empty _ _ :: rest => nested opened rest
  | .close name :: rest =>
    match opened with
    | [] => false
    | inner :: outer => name = inner && nested outer rest

/-- Tags of a properly nested text. -/
def tags? (s : List Char) : Option (List Tag) :=
  (scan s).bind fun tags => if nested [] tags then some tags else none

/-- What follows the first colon of a name. -/
def localName (name : List Char) : List Char :=
  match Text.cutFirst ':' name with
  | some (_, localPart) => localPart
  | none => name

end Switchboard.Markup
