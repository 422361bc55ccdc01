import Switchboard.Proofs.Text.Strip
import Switchboard.Text.Cut

/-!
# Lists in a text

A mark falls between the entries of what stands before and after it, and
everything about entries follows from that. Texts without the mark are single
entries, so texts that are joined with the mark are the entries of the whole,
up to the blanks around them. Words are to blanks what entries are to marks.
-/

namespace Switchboard.Text

variable {mark c : Char} {s t : List Char} {texts : List (List Char)}

/-! ## Entries -/

@[simp] theorem entries_nil (mark : Char) : entries mark [] = [] := rfl

/-- Entries are cut at a mark. -/
theorem entries_append_mark (mark : Char) (s t : List Char) :
    entries mark (s ++ mark :: t) = entries mark s ++ entries mark t := by
  unfold entries List.splitOn
  rw [List.splitOnP_append_cons s t (by simp), List.map_append, List.filter_append]

theorem entries_of_not_mem (h : mark ∉ s) (hne : trim s ≠ []) : entries mark s = [trim s] := by
  have hunmarked : ∀ c ∈ s, (c == mark) = false := by
    intro c hc
    rw [beq_eq_false_iff_ne]
    rintro rfl
    exact h hc
  unfold entries List.splitOn
  rw [List.splitOnP_eq_singleton hunmarked]
  simp [hne]

/-- Texts that follow one another, each behind a mark. -/
theorem entries_append_flatMap (h : ∀ t ∈ texts, mark ∉ t ∧ trim t ≠ []) :
    entries mark (s ++ texts.flatMap (mark :: ·)) = entries mark s ++ texts.map trim := by
  induction texts generalizing s with
  | nil => simp
  | cons t texts ih =>
      obtain ⟨hmark, hne⟩ := h t List.mem_cons_self
      rw [List.flatMap_cons, List.cons_append, entries_append_mark,
        ih fun u hu => h u (List.mem_cons_of_mem t hu), entries_of_not_mem hmark hne,
        List.map_cons, List.singleton_append]

theorem intercalate_cons (separator t : List Char) (texts : List (List Char)) :
    separator.intercalate (t :: texts) = t ++ texts.flatMap (separator ++ ·) := by
  induction texts generalizing t with
  | nil => simp
  | cons u texts ih =>
      rw [List.intercalate_cons_cons, ih, List.flatMap_cons, List.append_assoc,
        List.append_assoc]

/-- The entries of a text that is joined of texts without the mark. -/
theorem entries_intercalate (h : ∀ t ∈ texts, mark ∉ t ∧ trim t ≠ []) :
    entries mark ([mark].intercalate texts) = texts.map trim := by
  cases texts with
  | nil => rfl
  | cons t texts =>
      obtain ⟨hmark, hne⟩ := h t List.mem_cons_self
      rw [intercalate_cons]
      show entries mark (t ++ texts.flatMap (mark :: ·)) = _
      rw [entries_append_flatMap fun u hu => h u (List.mem_cons_of_mem t hu),
        entries_of_not_mem hmark hne]
      rfl

/-- The same with a blank behind each mark. -/
theorem entries_intercalate_blank {blank : Char} (hblank : isBlank blank = true)
    (hne : mark ≠ blank) (h : ∀ t ∈ texts, mark ∉ t ∧ trim t ≠ []) :
    entries mark ([mark, blank].intercalate texts) = texts.map trim := by
  cases texts with
  | nil => rfl
  | cons t texts =>
      have hshift : [mark, blank].intercalate (t :: texts) =
          [mark].intercalate (t :: texts.map (blank :: ·)) := by
        rw [intercalate_cons, intercalate_cons, List.flatMap_map]
        rfl
      have htrim : ∀ u, trim (blank :: u) = trim u := strip_cons hblank
      rw [hshift, entries_intercalate, List.map_cons, List.map_cons, List.map_map]
      · congr 2
        funext u
        exact htrim u
      · intro u hu
        rcases List.mem_cons.mp hu with rfl | hu
        · exact h u List.mem_cons_self
        · obtain ⟨v, hv, rfl⟩ := List.mem_map.mp hu
          obtain ⟨hmark, hv⟩ := h v (List.mem_cons_of_mem t hv)
          rw [htrim, List.mem_cons, not_or]
          exact ⟨⟨hne, hmark⟩, hv⟩

/-! ## What entries are made of -/

theorem mem_of_mem_splitOnP {p : Char → Bool} (ht : t ∈ s.splitOnP p) (hc : c ∈ t) :
    c ∈ s ∧ p c = false := by
  induction s generalizing t with
  | nil =>
      rw [List.splitOnP_nil, List.mem_singleton] at ht
      subst ht
      exact absurd hc List.not_mem_nil
  | cons d rest ih =>
      rw [List.splitOnP_cons_eq_if_modifyHead] at ht
      split at ht
      · rcases List.mem_cons.mp ht with rfl | ht
        · exact absurd hc List.not_mem_nil
        · exact (ih ht hc).imp_left (List.mem_cons_of_mem d)
      · rename_i hd
        obtain ⟨u, us, hsplit⟩ := List.exists_cons_of_ne_nil (List.splitOnP_ne_nil p rest)
        rw [hsplit] at ht ih
        rw [List.modifyHead_cons] at ht
        -- the first character joins the first piece of the rest
        rcases List.mem_cons.mp ht with rfl | ht
        · rcases List.mem_cons.mp hc with rfl | hc
          · exact ⟨List.mem_cons_self, by simpa using hd⟩
          · exact (ih List.mem_cons_self hc).imp_left (List.mem_cons_of_mem d)
        · exact (ih (List.mem_cons_of_mem u ht) hc).imp_left (List.mem_cons_of_mem d)

theorem mem_of_mem_splitOn (ht : t ∈ s.splitOn mark) (hc : c ∈ t) : c ∈ s ∧ c ≠ mark := by
  obtain ⟨hmem, hne⟩ := mem_of_mem_splitOnP ht hc
  exact ⟨hmem, by simpa using hne⟩

/-- The text is cut into pieces at its marks, and the entries are what is left of
these without the blanks around them and without empty ones. -/
def Enumerates (mark : Char) (s : List Char) (entries : List (List Char)) : Prop :=
  ∃ pieces, s = [mark].intercalate pieces ∧ (∀ piece ∈ pieces, mark ∉ piece) ∧
    entries = (pieces.map trim).filter (· ≠ [])

theorem entries_eq_iff : entries mark s = texts ↔ Enumerates mark s texts := by
  constructor
  · rintro rfl
    refine ⟨s.splitOn mark, (List.intercalate_splitOn mark).symm, ?_, rfl⟩
    intro piece hpiece hmark
    exact (mem_of_mem_splitOn hpiece hmark).2 rfl
  · rintro ⟨pieces, rfl, hunmarked, rfl⟩
    cases pieces with
    | nil => rfl
    | cons piece pieces =>
        unfold entries
        rw [List.splitOn_intercalate mark hunmarked (List.cons_ne_nil piece pieces)]

/-- An entry is a clean part of the text without the mark. -/
theorem mem_entries (h : t ∈ entries mark s) :
    t ≠ [] ∧ Clean isBlank t ∧ ∀ c ∈ t, c ∈ s ∧ c ≠ mark := by
  obtain ⟨hmem, hne⟩ := List.mem_filter.mp h
  obtain ⟨piece, hpiece, rfl⟩ := List.mem_map.mp hmem
  refine ⟨of_decide_eq_true hne, clean_trim piece, ?_⟩
  intro c hc
  exact mem_of_mem_splitOn hpiece (mem_of_mem_strip hc)

/-! ## Words -/

/-- A text that stands between blanks. -/
def Word (t : List Char) : Prop :=
  t ≠ [] ∧ ∀ c ∈ t, isBlank c = false

theorem word_of_all (hne : t ≠ []) (h : (t.all fun c => !isBlank c) = true) : Word t := by
  refine ⟨hne, fun c hc => ?_⟩
  simpa using List.all_eq_true.mp h c hc

theorem Word.clean (h : Word t) : Clean isBlank t :=
  clean_of_forall h.2

theorem mem_words (h : t ∈ words s) : Word t := by
  obtain ⟨hmem, hne⟩ := List.mem_filter.mp h
  exact ⟨of_decide_eq_true hne, fun c hc => (mem_of_mem_splitOnP hmem hc).2⟩

theorem words_append_blank (hc : isBlank c = true) (s t : List Char) :
    words (s ++ c :: t) = words s ++ words t := by
  unfold words
  rw [List.splitOnP_append_cons s t hc, List.filter_append]

theorem Word.words_eq (h : Word s) : words s = [s] := by
  unfold words
  rw [List.splitOnP_eq_singleton h.2]
  simp [h.1]

/-- Words that follow one another, each behind a blank. -/
theorem words_append_flatMap {blank : Char} (hblank : isBlank blank = true)
    (h : ∀ t ∈ texts, Word t) :
    words (s ++ texts.flatMap (blank :: ·)) = words s ++ texts := by
  induction texts generalizing s with
  | nil => simp
  | cons t texts ih =>
      have ht := (h t List.mem_cons_self).words_eq
      rw [List.flatMap_cons, List.cons_append, words_append_blank hblank,
        ih fun u hu => h u (List.mem_cons_of_mem t hu), ht, List.singleton_append]

end Switchboard.Text
