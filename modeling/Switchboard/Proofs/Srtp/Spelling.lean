import Switchboard.Proofs.Srtp.Suite
import Switchboard.Proofs.Text.Fold
import Switchboard.Proofs.Text.Words

/-!
# Spellings of a suite

A suite is spelled by a word for its cipher and any words for its modifiers, in
any letter case, in any order and as often as one likes. These are exactly the
texts that are read as that suite. So it is told by the cipher and the set of
modifiers that are spelled, and a reader that passes over words it does not know
finds the same suite as one that accepts no such word.
-/

namespace Switchboard.Srtp

open Text

/-! ## One word -/

/-- The word is the name of the cipher in any letter case. -/
def Cipher.Spelled (c : Cipher) (word : List Char) : Prop :=
  sameFolded word c.name.toList = true

/-- The word stands for the modifier, in any letter case. -/
def Modifier.Spelled (m : Modifier) (word : List Char) : Prop :=
  sameFolded word m.word.toList = true

instance (m : Modifier) (word : List Char) : Decidable (m.Spelled word) :=
  inferInstanceAs (Decidable (_ = _))

theorem Cipher.table : Table all fun c => c.name.toList where
  complete c := by cases c <;> decide
  distinct := by decide +kernel

theorem Modifier.table : Table [unencryptedRtp, unencryptedRtcp] fun m => m.word.toList where
  complete m := by cases m <;> decide
  distinct := by decide +kernel

theorem Cipher.read_eq_ok_iff {word : List Char} (hword : Word word) {c : Cipher} :
    read word = .ok c ↔ c.Spelled word := by
  have hspelled : ∀ c : Cipher, sameFolded c.name.toList word = true ↔ c.Spelled word := by
    intro c
    unfold Spelled
    rw [sameFolded_comm]
  have hfind : (all.find? fun c => sameFolded c.name.toList word) = some c ↔ c.Spelled word :=
    table.find?_eq_some_iff hspelled
  rw [← hfind]
  unfold read
  rw [trim_of_clean hword.clean]
  dsimp only
  cases all.find? fun c => sameFolded c.name.toList word <;> simp

theorem Modifier.ofWord?_eq_some_iff {word : List Char} {m : Modifier} :
    ofWord? word = some m ↔ m.Spelled word :=
  table.find?_eq_some_iff fun _ => Iff.rfl

theorem Modifier.ofWord?_eq_none_iff {word : List Char} :
    ofWord? word = none ↔ ∀ m : Modifier, ¬m.Spelled word :=
  table.find?_eq_none_iff fun _ => Iff.rfl

theorem Modifier.spelled_unique {word : List Char} {m m' : Modifier} (h : m.Spelled word)
    (h' : m'.Spelled word) : m = m' := by
  rw [← ofWord?_eq_some_iff] at h h'
  exact Option.some.inj (h.symm.trans h')

/-! ## Words after the cipher -/

namespace Suite

variable {s t : Suite} {m : Modifier} {base word whole : List Char} {rest : List (List Char)}

theorem rtp_mem_modifiers : .unencryptedRtp ∈ s.modifiers ↔ s.unencryptedRtp = true := by
  simp [modifiers]

theorem rtcp_mem_modifiers : .unencryptedRtcp ∈ s.modifiers ↔ s.unencryptedRtcp = true := by
  simp [modifiers]

theorem ext_modifiers (hcipher : s.cipher = t.cipher)
    (h : ∀ m, m ∈ s.modifiers ↔ m ∈ t.modifiers) : s = t := by
  have hrtp := h .unencryptedRtp
  have hrtcp := h .unencryptedRtcp
  rw [rtp_mem_modifiers, rtp_mem_modifiers, ← Bool.eq_iff_iff] at hrtp
  rw [rtcp_mem_modifiers, rtcp_mem_modifiers, ← Bool.eq_iff_iff] at hrtcp
  cases s
  cases t
  cases hcipher
  cases hrtp
  cases hrtcp
  rfl

theorem mem_modifiers_modify (s : Suite) (m m' : Modifier) :
    m ∈ (s.modify m').modifiers ↔ m ∈ s.modifiers ∨ m = m' := by
  cases m <;> cases m' <;> simp [modify, rtp_mem_modifiers, rtcp_mem_modifiers]

theorem modifyKnown_of_spelled (h : m.Spelled word) (s : Suite) (rest : List (List Char)) :
    s.modifyKnown (word :: rest) = (s.modify m).modifyKnown rest := by
  unfold modifyKnown
  rw [List.filterMap_cons_some (Modifier.ofWord?_eq_some_iff.mpr h), List.foldl_cons]

theorem modifyKnown_of_unknown (h : ∀ m : Modifier, ¬m.Spelled word) (s : Suite)
    (rest : List (List Char)) : s.modifyKnown (word :: rest) = s.modifyKnown rest := by
  unfold modifyKnown
  rw [List.filterMap_cons_none (Modifier.ofWord?_eq_none_iff.mpr h)]

theorem cipher_modifyKnown (s : Suite) (rest : List (List Char)) :
    (s.modifyKnown rest).cipher = s.cipher := by
  induction rest generalizing s with
  | nil => rfl
  | cons word rest ih =>
      by_cases hword : ∃ m : Modifier, m.Spelled word
      · obtain ⟨m, hm⟩ := hword
        rw [modifyKnown_of_spelled hm, ih]
        cases m <;> rfl
      · rw [modifyKnown_of_unknown (not_exists.mp hword), ih]

/-- Known words add the modifiers they stand for, and nothing else. -/
theorem mem_modifiers_modifyKnown (s : Suite) (rest : List (List Char)) (m : Modifier) :
    m ∈ (s.modifyKnown rest).modifiers ↔ m ∈ s.modifiers ∨ ∃ word ∈ rest, m.Spelled word := by
  induction rest generalizing s with
  | nil => simp [modifyKnown]
  | cons word rest ih =>
      rw [List.exists_mem_cons_iff]
      by_cases hword : ∃ m' : Modifier, m'.Spelled word
      · obtain ⟨m', hm'⟩ := hword
        have hm : m = m' ↔ m.Spelled word :=
          ⟨fun heq => heq ▸ hm', fun hm => Modifier.spelled_unique hm hm'⟩
        rw [modifyKnown_of_spelled hm', ih, mem_modifiers_modify, hm, or_assoc]
      · rw [not_exists] at hword
        rw [modifyKnown_of_unknown hword, ih, or_iff_right (hword m)]

/-- The strict reader of words finds what the other one does, as long as it
knows them all. -/
theorem modifyAll_eq_ok_iff (whole : List Char) (s t : Suite) (rest : List (List Char)) :
    modifyAll whole s rest = .ok t ↔
      (∀ word ∈ rest, ∃ m : Modifier, m.Spelled word) ∧ t = s.modifyKnown rest := by
  induction rest generalizing s with
  | nil => simp [modifyAll, modifyKnown, eq_comm]
  | cons word rest ih =>
      rw [List.forall_mem_cons]
      cases hword : Modifier.ofWord? word with
      | some m =>
          have hm := Modifier.ofWord?_eq_some_iff.mp hword
          have hknown : ∃ m : Modifier, m.Spelled word := ⟨m, hm⟩
          rw [modifyAll, hword, modifyKnown_of_spelled hm, and_assoc, and_iff_right hknown]
          exact ih (s.modify m)
      | none =>
          rw [modifyAll, hword]
          constructor
          · rintro ⟨⟩
          · rintro ⟨⟨⟨m, hm⟩, -⟩, -⟩
            exact absurd hm (Modifier.ofWord?_eq_none_iff.mp hword m)

/-! ## Whole suites -/

/-- The first word stands for the cipher, and the others for the modifiers of
the suite, each at least once. -/
structure Spelled (s : Suite) (base : List Char) (rest : List (List Char)) : Prop where
  cipher : s.cipher.Spelled base
  known : ∀ word ∈ rest, ∃ m : Modifier, m.Spelled word
  modifiers : ∀ m, m ∈ s.modifiers ↔ ∃ word ∈ rest, m.Spelled word

/-- Other letter cases, and other words for the same modifiers, spell the same
suite. -/
theorem Spelled.respell (h : s.Spelled base rest) {base' : List Char} {rest' : List (List Char)}
    (hbase : sameFolded base' base = true)
    (hknown : ∀ word ∈ rest', ∃ m : Modifier, m.Spelled word)
    (hrest : ∀ m : Modifier, (∃ word ∈ rest', m.Spelled word) ↔ ∃ word ∈ rest, m.Spelled word) :
    s.Spelled base' rest' where
  cipher := sameFolded_trans hbase h.cipher
  known := hknown
  modifiers m := (h.modifiers m).trans (hrest m).symm

theorem eq_modifyKnown_iff {c : Cipher} : s = modifyKnown { cipher := c } rest ↔
    s.cipher = c ∧ ∀ m, m ∈ s.modifiers ↔ ∃ word ∈ rest, m.Spelled word := by
  have hmodifiers : ∀ m, m ∈ (modifyKnown { cipher := c } rest).modifiers ↔
      ∃ word ∈ rest, m.Spelled word := by
    intro m
    rw [mem_modifiers_modifyKnown]
    simp [Suite.modifiers]
  constructor
  · rintro rfl
    exact ⟨cipher_modifyKnown _ rest, hmodifiers⟩
  · rintro ⟨rfl, h⟩
    refine ext_modifiers (cipher_modifyKnown { cipher := s.cipher } rest).symm fun m => ?_
    rw [h, hmodifiers]

theorem read_eq_ok_iff_of_words {w : List Char} (hw : words w = base :: rest) :
    read w = .ok s ↔ s.Spelled base rest := by
  have hbase : Word base := mem_words (s := w) (by rw [hw]; exact List.mem_cons_self)
  unfold read
  rw [hw]
  dsimp only
  cases hread : Cipher.read base with
  | error e =>
      constructor
      · rintro ⟨⟩
      · intro h
        rw [(Cipher.read_eq_ok_iff hbase).mpr h.cipher] at hread
        cases hread
  | ok c =>
      have hc := (Cipher.read_eq_ok_iff hbase).mp hread
      dsimp only
      rw [modifyAll_eq_ok_iff, eq_modifyKnown_iff]
      constructor
      · rintro ⟨hknown, rfl, hmodifiers⟩
        exact ⟨hc, hknown, hmodifiers⟩
      · intro h
        rw [(Cipher.read_eq_ok_iff hbase).mpr h.cipher, Except.ok.injEq] at hread
        exact ⟨h.known, hread, h.modifiers⟩

theorem read_eq_ok_iff {w : List Char} :
    read w = .ok s ↔ ∃ base rest, Spaced w (base :: rest) ∧ s.Spelled base rest := by
  constructor
  · intro h
    cases hw : words w with
    | nil =>
        unfold read at h
        rw [hw] at h
        cases h
    | cons base rest =>
        exact ⟨base, rest, words_eq_iff.mp hw, (read_eq_ok_iff_of_words hw).mp h⟩
  · rintro ⟨base, rest, hw, h⟩
    exact (read_eq_ok_iff_of_words (words_eq_iff.mpr hw)).mpr h

end Suite

end Switchboard.Srtp
