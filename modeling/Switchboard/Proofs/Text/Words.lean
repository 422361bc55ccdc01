import Switchboard.Proofs.Text.Entries

/-!
# Words between blanks

A text falls into words in one way only: these are all its characters but the
blanks, cut wherever a blank stands. However many blanks there are, and whatever
stands first or last, makes no difference.
-/

namespace Switchboard.Text

variable {c : Char} {s before : List Char} {ts : List (List Char)}

/-- The text is made of these words, with blanks between them and any number of
blanks around. -/
inductive Spaced : List Char → List (List Char) → Prop
  | blanks {s : List Char} (h : ∀ c ∈ s, isBlank c = true) : Spaced s []
  | word {before t s : List Char} {ts : List (List Char)}
      (hbefore : ∀ c ∈ before, isBlank c = true) (ht : Word t)
      (hs : ∀ c ∈ s.head?, isBlank c = true) (h : Spaced s ts) :
      Spaced (before ++ t ++ s) (t :: ts)

theorem words_cons_blank (hc : isBlank c = true) (s : List Char) : words (c :: s) = words s :=
  words_append_blank hc [] s

theorem words_append_of_blanks (h : ∀ c ∈ before, isBlank c = true) (s : List Char) :
    words (before ++ s) = words s := by
  induction before with
  | nil => rfl
  | cons c before ih =>
      obtain ⟨hc, hbefore⟩ := List.forall_mem_cons.mp h
      rw [List.cons_append, words_cons_blank hc, ih hbefore]

theorem Spaced.words_eq (h : Spaced s ts) : words s = ts := by
  induction h with
  | @blanks s h =>
      rw [← List.append_nil s, words_append_of_blanks h, words_nil]
  | @word before t s ts hbefore ht hs _ ih =>
      rw [List.append_assoc, words_append_of_blanks hbefore]
      cases s with
      | nil =>
          rw [words_nil] at ih
          rw [List.append_nil, ht.words_eq, ih]
      -- the blank that ends the word is no part of what follows it
      | cons c rest =>
          have hc : isBlank c = true := hs c rfl
          rw [words_cons_blank hc] at ih
          rw [words_append_blank hc, ht.words_eq, ih]
          rfl

/-! ## Every text falls into words -/

theorem Spaced.cons_blank (hc : isBlank c = true) (h : Spaced s ts) : Spaced (c :: s) ts := by
  cases h with
  | blanks h => exact .blanks (List.forall_mem_cons.mpr ⟨hc, h⟩)
  | @word before t s ts hbefore ht hs h =>
      exact @Spaced.word (c :: before) t s ts (List.forall_mem_cons.mpr ⟨hc, hbefore⟩) ht hs h

theorem word_cons (hc : isBlank c = false) (h : ∀ d ∈ s, isBlank d = false) : Word (c :: s) :=
  ⟨List.cons_ne_nil c s, List.forall_mem_cons.mpr ⟨hc, h⟩⟩

/-- A letter is a word of its own, or the first letter of the first word. -/
theorem Spaced.cons_letter (hc : isBlank c = false) (h : Spaced s ts) :
    ∃ ts, Spaced (c :: s) ts := by
  have hword : Word [c] := word_cons hc (by simp)
  cases h with
  | blanks h =>
      refine ⟨[[c]], @Spaced.word [] [c] s [] (by simp) hword ?_ (.blanks h)⟩
      exact fun d hd => h d (List.mem_of_mem_head? hd)
  | @word before t s ts hbefore ht hs h =>
      cases before with
      | nil =>
          have hlonger : Word (c :: t) := word_cons hc ht.2
          exact ⟨(c :: t) :: ts, @Spaced.word [] (c :: t) s ts (by simp) hlonger hs h⟩
      | cons b before =>
          have hrest := Spaced.word hbefore ht hs h
          refine ⟨[c] :: t :: ts, @Spaced.word [] [c] _ _ (by simp) hword ?_ hrest⟩
          rintro d ⟨⟩
          exact hbefore b List.mem_cons_self

theorem exists_spaced (s : List Char) : ∃ ts, Spaced s ts := by
  induction s with
  | nil => exact ⟨[], .blanks (by simp)⟩
  | cons c s ih =>
      obtain ⟨ts, h⟩ := ih
      cases hc : isBlank c with
      | true => exact ⟨ts, h.cons_blank hc⟩
      | false => exact h.cons_letter hc

/-- The words of a text are the ones it is made of. -/
theorem words_eq_iff : words s = ts ↔ Spaced s ts := by
  constructor
  · rintro rfl
    obtain ⟨ts, h⟩ := exists_spaced s
    rwa [h.words_eq]
  · exact Spaced.words_eq

end Switchboard.Text
