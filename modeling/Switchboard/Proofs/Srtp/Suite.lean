import Switchboard.Proofs.Ranked
import Switchboard.Proofs.Text.Entries
import Switchboard.Srtp.SuiteList

/-!
# Suites that are read back

A suite is written as words, the name of its cipher first, and these words read
back as the suite. No suite holds a comma, so a list of suites falls into what
was written for each, and a list that names no suite twice reads back as it was.
-/

namespace Switchboard.Srtp

open Text

/-! ## Words of a suite -/

/-- A word without commas. -/
def Plain (t : List Char) : Prop :=
  t ≠ [] ∧ ∀ c ∈ t, isBlank c = false ∧ c ≠ ','

theorem plain_of_all {t : List Char} (hne : t ≠ [])
    (h : (t.all fun c => !isBlank c && c != ',') = true) : Plain t := by
  refine ⟨hne, fun c hc => ?_⟩
  simpa using List.all_eq_true.mp h c hc

theorem Plain.word {t : List Char} (h : Plain t) : Word t :=
  ⟨h.1, fun c hc => (h.2 c hc).1⟩

theorem Plain.clean {t : List Char} (h : Plain t) : Clean isBlank t :=
  h.word.clean

theorem Cipher.name_plain (c : Cipher) : Plain c.name.toList := by
  cases c <;> exact plain_of_all (by decide +kernel) (by decide +kernel)

theorem Cipher.read_name (c : Cipher) : Cipher.read c.name.toList = .ok c := by
  cases c <;> decide +kernel

theorem Modifier.word_plain (m : Modifier) : Plain m.word.toList := by
  cases m <;> exact plain_of_all (by decide +kernel) (by decide +kernel)

theorem Modifier.ofWord?_word (m : Modifier) : Modifier.ofWord? m.word.toList = some m := by
  cases m <;> decide +kernel

namespace Suite

/-- Words that follow the name of the cipher. -/
def modifierWords (s : Suite) : List (List Char) :=
  s.modifiers.map (·.word.toList)

theorem write_eq (s : Suite) :
    s.write = s.cipher.name.toList ++ s.modifierWords.flatMap (' ' :: ·) := by
  unfold modifierWords
  rw [List.flatMap_map]
  rfl

theorem modifierWords_plain (s : Suite) {t : List Char} (ht : t ∈ s.modifierWords) :
    Plain t := by
  obtain ⟨m, -, rfl⟩ := List.mem_map.mp ht
  exact m.word_plain

theorem words_write (s : Suite) : words s.write = s.cipher.name.toList :: s.modifierWords := by
  have hname := s.cipher.name_plain.word.words_eq
  have hwords : ∀ t ∈ s.modifierWords, Word t := fun t ht => (s.modifierWords_plain ht).word
  rw [write_eq, words_append_flatMap (by decide) hwords, hname, List.singleton_append]

/-! ## Reading what is written -/

theorem modifyAll_words (whole : List Char) (s : Suite) (ms : List Modifier) :
    modifyAll whole s (ms.map (·.word.toList)) = .ok (ms.foldl modify s) := by
  induction ms generalizing s with
  | nil => rfl
  | cons m ms ih =>
      rw [List.map_cons, modifyAll, m.ofWord?_word]
      exact ih (s.modify m)

theorem foldl_modifiers (s : Suite) : s.modifiers.foldl modify { cipher := s.cipher } = s := by
  obtain ⟨cipher, rtp, rtcp⟩ := s
  cases rtp <;> cases rtcp <;> rfl

theorem modifyKnown_modifierWords (s : Suite) :
    modifyKnown { cipher := s.cipher } s.modifierWords = s := by
  have hknown : s.modifierWords.filterMap Modifier.ofWord? = s.modifiers := by
    unfold modifierWords
    rw [List.filterMap_map]
    have hword : (Modifier.ofWord? ∘ fun m => m.word.toList) = some :=
      funext Modifier.ofWord?_word
    rw [hword, List.filterMap_some]
  unfold modifyKnown
  rw [hknown, foldl_modifiers]

theorem read_write (s : Suite) : read s.write = .ok s := by
  unfold read
  rw [words_write]
  dsimp only
  rw [s.cipher.read_name]
  dsimp only
  unfold modifierWords
  rw [modifyAll_words, foldl_modifiers]

/-! ## Lists of suites -/

theorem write_ne_nil (s : Suite) : s.write ≠ [] := by
  rw [write_eq]
  exact List.append_ne_nil_of_left_ne_nil s.cipher.name_plain.1 _

theorem trim_write (s : Suite) : trim s.write = s.write := by
  have hname := s.cipher.name_plain
  apply strip_of_clean
  rw [write_eq]
  constructor
  · rw [List.head?_append_of_ne_nil _ hname.1]
    exact hname.clean.first
  · refine last_append_flatMap hname.clean.last fun t ht => ?_
    have hword := s.modifierWords_plain ht
    exact ⟨hword.1, hword.clean.last⟩

theorem comma_not_mem_write (s : Suite) : ',' ∉ s.write := by
  rw [write_eq, List.mem_append, not_or, List.mem_flatMap, not_exists]
  constructor
  · exact fun hc => (s.cipher.name_plain.2 ',' hc).2 rfl
  · rintro t ⟨ht, hc⟩
    rcases List.mem_cons.mp hc with hc | hc
    · exact absurd hc (by decide)
    · exact ((s.modifierWords_plain ht).2 ',' hc).2 rfl

theorem entries_writeList (suites : List Suite) :
    entries ',' (writeList suites) = suites.map write := by
  unfold writeList
  rw [entries_intercalate_blank (by decide) (by decide), List.map_map]
  · apply List.map_congr_left
    intro s _
    exact s.trim_write
  · intro t ht
    obtain ⟨s, -, rfl⟩ := List.mem_map.mp ht
    rw [s.trim_write]
    exact ⟨s.comma_not_mem_write, s.write_ne_nil⟩

theorem filterMap_read_write (suites : List Suite) :
    (suites.map write).filterMap (fun entry => (read entry).toOption) = suites := by
  rw [List.filterMap_map]
  have hread : ((fun entry => (read entry).toOption) ∘ write) = some := by
    funext s
    show (read s.write).toOption = some s
    rw [read_write]
    rfl
  rw [hread, List.filterMap_some]

/-- A list that names no suite twice is read back. -/
theorem parseLenient_listText {suites : List Suite} (h : suites.Nodup) (hne : suites ≠ []) :
    parseLenient (listText suites) = suites := by
  unfold parseLenient listText readLenient orDefaults
  rw [String.toList_ofList, entries_writeList, filterMap_read_write, Ranked.ofList_of_nodup h,
    if_neg hne]

end Suite

end Switchboard.Srtp
