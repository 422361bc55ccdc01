import Mathlib.Data.List.DropRight
import Switchboard.Text.Blank

/-!
# What stripping leaves

Stripping takes whole runs off both ends and nothing else. So a stripped text
is clean, that is, neither of its ends would be stripped again; clean texts stay
as they are; and a character that is not stripped is never lost.
-/

namespace Switchboard.Text

variable {p : Char → Bool} {s t before after : List Char} {c : Char}

/-- Neither the first nor the last character satisfies `p`. -/
structure Clean (p : Char → Bool) (s : List Char) : Prop where
  first : ∀ c ∈ s.head?, p c = false
  last : ∀ c ∈ s.getLast?, p c = false

theorem strip_eq (p : Char → Bool) (s : List Char) :
    strip p s = (s.dropWhile p).rdropWhile p := rfl

theorem clean_of_forall (h : ∀ c ∈ s, p c = false) : Clean p s where
  first c hc := h c (List.mem_of_mem_head? hc)
  last c hc := h c (List.mem_of_getLast? hc)

theorem first_cons (hc : p c = false) (s : List Char) : ∀ d ∈ (c :: s).head?, p d = false := by
  rintro d ⟨⟩
  exact hc

/-- The ends of two texts around a mark that stays. -/
theorem clean_append_cons (hs : ∀ c ∈ s.head?, p c = false) (hc : p c = false)
    (ht : ∀ c ∈ t.getLast?, p c = false) : Clean p (s ++ c :: t) where
  first := by
    cases s with
    | nil => simpa using hc
    | cons d rest => simpa using hs
  last := by
    rw [List.getLast?_append_of_ne_nil _ (List.cons_ne_nil c t), List.getLast?_cons]
    cases h : t.getLast? with
    | none => simpa using hc
    | some d => simpa using ht d h

/-- The last character is that of the last of some texts in a row, each of them
behind a mark. -/
theorem last_append_flatMap {mark : Char} {texts : List (List Char)}
    (hs : ∀ c ∈ s.getLast?, p c = false)
    (h : ∀ t ∈ texts, t ≠ [] ∧ ∀ c ∈ t.getLast?, p c = false) :
    ∀ c ∈ (s ++ texts.flatMap (mark :: ·)).getLast?, p c = false := by
  induction texts generalizing s with
  | nil =>
      rw [List.flatMap_nil, List.append_nil]
      exact hs
  | cons t texts ih =>
      obtain ⟨hne, ht⟩ := h t List.mem_cons_self
      rw [List.flatMap_cons, ← List.append_assoc]
      refine ih ?_ fun u hu => h u (List.mem_cons_of_mem t hu)
      rw [List.getLast?_append_of_ne_nil _ (List.cons_ne_nil mark t),
        ← List.singleton_append, List.getLast?_append_of_ne_nil _ hne]
      exact ht

/-! ## Ends -/

theorem clean_strip (p : Char → Bool) (s : List Char) : Clean p (strip p s) where
  first := by
    intro c hc
    have hhead := List.head?_dropWhile_not p s
    obtain ⟨rest, hrest⟩ := List.rdropWhile_prefix p (s.dropWhile p)
    rw [strip_eq] at hc
    rw [← hrest, List.head?_append, Option.mem_def.mp hc] at hhead
    exact hhead
  last := by
    intro c hc
    rw [strip_eq] at hc
    obtain ⟨hne, rfl⟩ := List.mem_getLast?_eq_getLast hc
    rw [← Bool.not_eq_true]
    exact List.rdropWhile_last_not p _ hne

theorem strip_of_clean (h : Clean p s) : strip p s = s := by
  have hfirst : s.dropWhile p = s := by
    cases s with
    | nil => rfl
    | cons c rest => rw [List.dropWhile_cons_of_neg (by simp [h.first c rfl])]
  rw [strip_eq, hfirst, List.rdropWhile_eq_self_iff]
  intro hne
  rw [Bool.not_eq_true]
  exact h.last _ (List.getLast?_eq_getLast_of_ne_nil hne)

theorem trim_of_clean (h : Clean isBlank s) : trim s = s :=
  strip_of_clean h

theorem clean_trim (s : List Char) : Clean isBlank (trim s) :=
  clean_strip isBlank s

theorem strip_strip (p : Char → Bool) (s : List Char) : strip p (strip p s) = strip p s :=
  strip_of_clean (clean_strip p s)

theorem strip_cons (h : p c = true) (s : List Char) : strip p (c :: s) = strip p s := by
  rw [strip_eq, strip_eq, List.dropWhile_cons_of_pos h]

theorem strip_concat (h : p c = true) (s : List Char) : strip p (s ++ [c]) = strip p s := by
  rw [strip_eq, strip_eq, List.dropWhile_append]
  split
  · rename_i hempty
    rw [List.isEmpty_iff.mp hempty, List.dropWhile_cons_of_pos h]
    rfl
  · exact List.rdropWhile_concat_pos p _ c h

/-- Stripping takes everything around a clean text. -/
theorem strip_around (hbefore : ∀ c ∈ before, p c = true) (hafter : ∀ c ∈ after, p c = true)
    (hs : Clean p s) : strip p (before ++ s ++ after) = s := by
  have hlast : strip p (s ++ after) = strip p s := by
    induction after using List.reverseRecOn with
    | nil => rw [List.append_nil]
    | append_singleton after c ih =>
        rw [← List.append_assoc, strip_concat (hafter c (by simp)),
          ih fun d hd => hafter d (List.mem_append_left _ hd)]
  have hfirst : strip p (before ++ s ++ after) = strip p (s ++ after) := by
    rw [List.append_assoc, strip_eq, List.dropWhile_append_of_pos hbefore, ← strip_eq]
  rw [hfirst, hlast, strip_of_clean hs]

/-- A text is what stripping leaves, with the stripped characters around it. -/
theorem exists_around_strip (p : Char → Bool) (s : List Char) :
    ∃ before after, s = before ++ strip p s ++ after ∧ ∀ c ∈ before ++ after, p c = true := by
  refine ⟨s.takeWhile p, (s.dropWhile p).rtakeWhile p, ?_, ?_⟩
  · rw [strip_eq, List.append_assoc, List.rdropWhile_append_rtakeWhile,
      List.takeWhile_append_dropWhile]
  · intro c hc
    rcases List.mem_append.mp hc with hc | hc
    · exact List.mem_takeWhile_imp hc
    · exact List.mem_rtakeWhile_imp hc

/-! ## Characters -/

theorem isInfix_strip (p : Char → Bool) (s : List Char) : strip p s <:+: s :=
  (List.rdropWhile_prefix p _).isInfix.trans (List.dropWhile_suffix p).isInfix

theorem mem_of_mem_strip (h : c ∈ strip p s) : c ∈ s :=
  (isInfix_strip p s).subset h

theorem mem_strip (hc : c ∈ s) (hp : p c = false) : c ∈ strip p s := by
  have hkeep : ∀ t : List Char, c ∈ t → c ∈ t.dropWhile p := by
    intro t ht
    rw [← List.takeWhile_append_dropWhile (p := p) (l := t), List.mem_append] at ht
    rcases ht with htaken | hkept
    · rw [List.mem_takeWhile_imp htaken] at hp
      exact Bool.noConfusion hp
    · exact hkept
  unfold strip
  rw [List.mem_reverse]
  apply hkeep
  rw [List.mem_reverse]
  exact hkeep s hc

end Switchboard.Text
