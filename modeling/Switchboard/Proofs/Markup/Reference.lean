import Mathlib.Data.List.Basic
import Switchboard.Markup.Entity

/-!
# References written and read

Writing puts a reference in the place of each of the five characters that must
not stand for themselves. So a written text holds none of them but the
ampersands its references start with, and reading resolves every reference to
the character it was written for.
-/

namespace Switchboard.Markup

variable {s rest name : List Char} {c d : Char}

/-- What is checked of the characters of a text, one after another, holds of all. -/
theorem forall_mem_of_all {p : Char → Prop} [DecidablePred p]
    (h : s.all (fun c => decide (p c)) = true) : ∀ c ∈ s, p c := by
  intro c hc
  exact of_decide_eq_true (List.all_eq_true.mp h c hc)

/-! ## One reference -/

/-- A name is read by itself, since nothing in it needs a name or ends it. -/
theorem of_nameOf? (h : nameOf? c = some name) :
    resolve? name = some c ∧ ∀ d ∈ name, nameOf? d = none ∧ d ≠ ';' := by
  unfold nameOf? at h
  split at h
  case h_6 => cases h
  all_goals
    obtain rfl := Option.some.inj h
    exact ⟨by decide, forall_mem_of_all (by decide)⟩

theorem escapeChar_of_name (h : nameOf? c = some name) : escapeChar c = '&' :: (name ++ [';']) := by
  unfold escapeChar
  rw [h]
  rfl

theorem escapeChar_of_none (h : nameOf? c = none) : escapeChar c = [c] := by
  unfold escapeChar
  rw [h]

theorem readReference_append (h : ∀ d ∈ name, nameOf? d = none ∧ d ≠ ';') (rest : List Char) :
    readReference (name ++ ';' :: rest) = some (name, rest) := by
  induction name with
  | nil => rfl
  | cons d name ih =>
      obtain ⟨hd, hname⟩ := List.forall_mem_cons.mp h
      rw [List.cons_append, readReference, ih hname]
      · rfl
      · rintro rfl
        exact hd.2 rfl
      · rintro rfl
        cases hd.1

theorem unescape_ampersand (h : readReference s = some (name, rest)) :
    unescape ('&' :: s) = (resolve? name).bind fun c => (unescape rest).map (c :: ·) := by
  rw [unescape]
  split
  · rename_i hnone
    rw [h] at hnone
    cases hnone
  · rename_i body after hsome
    rw [h] at hsome
    obtain ⟨rfl, rfl⟩ := Prod.mk.inj (Option.some.inj hsome)
    rfl

theorem unescape_cons (h : c ≠ '&') (s : List Char) :
    unescape (c :: s) = (unescape s).map (c :: ·) := by
  rw [unescape]
  intro heq
  exact h heq

/-! ## Whole texts -/

/-- A written character is read as itself, whatever follows. -/
theorem unescape_escapeChar (c : Char) (s : List Char) :
    unescape (escapeChar c ++ s) = (unescape s).map (c :: ·) := by
  cases hname : nameOf? c with
  | none =>
      have hplain : c ≠ '&' := by
        rintro rfl
        cases hname
      rw [escapeChar_of_none hname]
      exact unescape_cons hplain s
  | some name =>
      obtain ⟨hresolve, hplain⟩ := of_nameOf? hname
      have hread := readReference_append hplain s
      rw [escapeChar_of_name hname, List.cons_append, List.append_assoc, List.singleton_append,
        unescape_ampersand hread, hresolve]
      rfl

/-- **What is escaped is read back.** -/
theorem unescape_escape (s : List Char) : unescape (escape s) = some s := by
  induction s with
  | nil => rw [escape, List.flatMap_nil, unescape]
  | cons c s ih =>
      have hrest : unescape (s.flatMap escapeChar) = some s := ih
      rw [escape, List.flatMap_cons, unescape_escapeChar, hrest]
      rfl

theorem mem_escapeChar (h : c ∈ escapeChar d) : c = '&' ∨ nameOf? c = none := by
  cases hname : nameOf? d with
  | none =>
      rw [escapeChar_of_none hname] at h
      obtain rfl := List.mem_singleton.mp h
      exact .inr hname
  | some name =>
      rw [escapeChar_of_name hname] at h
      rcases List.mem_cons.mp h with rfl | h
      · exact .inl rfl
      · rcases List.mem_append.mp h with h | h
        · exact .inr ((of_nameOf? hname).2 c h).1
        · obtain rfl := List.mem_singleton.mp h
          exact .inr rfl

/-- Of the characters with a name only the ampersand is written. -/
theorem not_mem_escape (hname : (nameOf? c).isSome) (hc : c ≠ '&') : c ∉ escape s := by
  intro hmem
  obtain ⟨d, -, hd⟩ := List.mem_flatMap.mp hmem
  rcases mem_escapeChar hd with rfl | hnone
  · exact hc rfl
  · rw [hnone] at hname
    cases hname

end Switchboard.Markup
