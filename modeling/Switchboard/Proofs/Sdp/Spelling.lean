import Mathlib.Data.List.Perm.Basic
import Switchboard.Proofs.Srtp.Spelling
import Switchboard.Sdp.CryptoLine

/-!
# One suite in two texts

Settings and crypto lines spell a suite by the same words, but a crypto line has
its key in between and may hold words for other readers. Its suite is the one
that the settings would tell by the same words without those others; with them
they would tell none.
-/

namespace Switchboard.Sdp.CryptoLine

open Text Srtp

variable {suite : Suite} {c : Cipher} {tag base key line : List Char} {n : UInt32}
  {rest others parameters : List (List Char)}

theorem read_of_words (hline : words line = tag :: base :: key :: parameters)
    (htag : readTag tag = some n) (hc : c.Spelled base) :
    read line = .ok { tag := n, suite := Suite.modifyKnown { cipher := c } parameters,
                      key := String.ofList key } := by
  have hbase : Word base := mem_words (s := line) (by rw [hline]; simp)
  unfold read
  rw [hline]
  dsimp only
  rw [htag]
  dsimp only
  rw [(Cipher.read_eq_ok_iff hbase).mpr hc]

/-- Words that stand for no modifier, wherever they are put, spell nothing. -/
theorem spelled_in_parameters (hothers : ∀ word ∈ others, ∀ m : Modifier, ¬m.Spelled word)
    (hparameters : parameters.Perm (rest ++ others)) (m : Modifier) :
    (∃ word ∈ parameters, m.Spelled word) ↔ ∃ word ∈ rest, m.Spelled word := by
  constructor
  · rintro ⟨word, hword, hm⟩
    rcases List.mem_append.mp (hparameters.mem_iff.mp hword) with hrest | hother
    · exact ⟨word, hrest, hm⟩
    · exact absurd hm (hothers word hother m)
  · rintro ⟨word, hword, hm⟩
    exact ⟨word, hparameters.mem_iff.mpr (List.mem_append_left others hword), hm⟩

/-- A crypto line holds the suite that is spelled among its parameters. -/
theorem read_spelled (hsuite : suite.Spelled base rest) (htag : readTag tag = some n)
    (hothers : ∀ word ∈ others, ∀ m : Modifier, ¬m.Spelled word)
    (hparameters : parameters.Perm (rest ++ others))
    (hline : Spaced line (tag :: base :: key :: parameters)) :
    read line = .ok { tag := n, suite, key := String.ofList key } := by
  have hsame : suite = Suite.modifyKnown { cipher := suite.cipher } parameters := by
    rw [Suite.eq_modifyKnown_iff]
    refine ⟨rfl, fun m => ?_⟩
    rw [hsuite.modifiers, spelled_in_parameters hothers hparameters]
  rw [read_of_words (words_eq_iff.mpr hline) htag hsuite.cipher, ← hsame]

/-- Another word among the parameters spoils the text of the settings. -/
theorem known_parameters_iff (hsuite : suite.Spelled base rest)
    (hothers : ∀ word ∈ others, ∀ m : Modifier, ¬m.Spelled word)
    (hparameters : parameters.Perm (rest ++ others)) :
    (∀ word ∈ parameters, ∃ m : Modifier, m.Spelled word) ↔ others = [] := by
  constructor
  · intro hknown
    rw [List.eq_nil_iff_forall_not_mem]
    intro word hword
    obtain ⟨m, hm⟩ := hknown word (hparameters.mem_iff.mpr (List.mem_append_right rest hword))
    exact hothers word hword m hm
  · rintro rfl word hword
    rw [hparameters.mem_iff, List.append_nil] at hword
    exact hsuite.known word hword

/-- The settings tell the same suite without such words, and none with them. -/
theorem settings_read_iff (hsuite : suite.Spelled base rest)
    (hothers : ∀ word ∈ others, ∀ m : Modifier, ¬m.Spelled word)
    (hparameters : parameters.Perm (rest ++ others)) {text : List Char}
    (htext : Spaced text (base :: parameters)) :
    (Suite.read text = .ok suite ↔ others = []) ∧
      ((∃ e, Suite.read text = .error e) ↔ others ≠ []) := by
  have hwords := words_eq_iff.mpr htext
  have hsame : Suite.read text = .ok suite ↔ others = [] := by
    rw [Suite.read_eq_ok_iff_of_words hwords,
      ← known_parameters_iff hsuite hothers hparameters]
    exact ⟨Suite.Spelled.known, fun hknown => hsuite.respell (sameFolded_refl base) hknown
      (spelled_in_parameters hothers hparameters)⟩
  refine ⟨hsame, ?_⟩
  cases hread : Suite.read text with
  | error e =>
      rw [hread] at hsame
      simpa using hsame
  | ok s =>
      have hs := (Suite.read_eq_ok_iff_of_words hwords).mp hread
      have hnone := (known_parameters_iff hsuite hothers hparameters).mp hs.known
      simp [hnone]

/-- **Settings and crypto lines read a suite alike.** A text is read as a suite
exactly if its first word is the name of the cipher and its other words stand
for the modifiers, in any letter case, in any order and however often: it is the
same suite for any words that stand for the same cipher and the same modifiers.
A crypto line with the same words, its tag and any word as its key in the usual
places, and any other words wherever one likes behind them, is read as that tag,
that key and the same suite. With such other words the text is no suite any
more. -/
theorem suite_read_alike :
    (∀ (text : String) (suite : Suite), Suite.parse text = .ok suite ↔
      ∃ base rest, Spaced text.toList (base :: rest) ∧ suite.Spelled base rest) ∧
    (∀ (text text' : String) (suite : Suite) (base base' : List Char)
        (rest rest' : List (List Char)),
      Spaced text.toList (base :: rest) → Suite.parse text = .ok suite →
      Spaced text'.toList (base' :: rest') → sameFolded base' base = true →
      (∀ word ∈ rest', ∃ m : Modifier, m.Spelled word) →
      (∀ m : Modifier, (∃ word ∈ rest', m.Spelled word) ↔ ∃ word ∈ rest, m.Spelled word) →
        Suite.parse text' = .ok suite) ∧
    ∀ (text line : String) (suite : Suite) (tag base key : List Char)
        (rest others parameters : List (List Char)) (n : UInt32),
      Spaced text.toList (base :: rest) → Suite.parse text = .ok suite →
      readTag tag = some n → (∀ word ∈ others, ∀ m : Modifier, ¬m.Spelled word) →
      parameters.Perm (rest ++ others) → Spaced line.toList (tag :: base :: key :: parameters) →
        parse line = .ok { tag := n, suite, key := String.ofList key } ∧
        ∀ text' : String, Spaced text'.toList (base :: parameters) →
          (Suite.parse text' = .ok suite ↔ others = []) ∧
          ((∃ e, Suite.parse text' = .error e) ↔ others ≠ []) := by
  have hspelled : ∀ {text : String} {suite : Suite} {base : List Char}
      {rest : List (List Char)}, Spaced text.toList (base :: rest) →
      Suite.parse text = .ok suite → suite.Spelled base rest :=
    fun htext hread => (Suite.read_eq_ok_iff_of_words (words_eq_iff.mpr htext)).mp hread
  refine ⟨fun _ _ => Suite.read_eq_ok_iff, ?_, ?_⟩
  · intro text text' suite base base' rest rest' htext hread htext' hbase hknown hrest
    apply Suite.read_eq_ok_iff.mpr
    exact ⟨base', rest', htext', (hspelled htext hread).respell hbase hknown hrest⟩
  · intro text line suite tag base key rest others parameters n htext hread htag hothers
      hparameters hline
    refine ⟨read_spelled (hspelled htext hread) htag hothers hparameters hline, ?_⟩
    intro text' htext'
    exact settings_read_iff (hspelled htext hread) hothers hparameters htext'

/-- Both modifiers in mixed case, one of them twice and on both sides of a
parameter that is for another reader. -/
theorem suite_read_alike_around_window :
    let text := " aead_aes_256_gcm\tUnencrypted_SRTP unencrypted_srtcp  UNENCRYPTED_SRTP"
    let line := "+007 aead_aes_256_gcm inline:a|2^31 " ++
      "unencrypted_srtcp Unencrypted_SRTP WSH=64 UNENCRYPTED_SRTP"
    let suite : Suite := { cipher := .aesGcm256, unencryptedRtp := true, unencryptedRtcp := true }
    let spoiled := "aead_aes_256_gcm unencrypted_srtcp Unencrypted_SRTP WSH=64 UNENCRYPTED_SRTP"
    Suite.parse text = .ok suite ∧
      parse line = .ok { tag := 7, suite, key := "inline:a|2^31" } ∧
      ∃ e, Suite.parse spoiled = .error e := by
  intro text line suite spoiled
  have htext : Suite.parse text = .ok suite := by decide +kernel
  let rest := ["Unencrypted_SRTP", "unencrypted_srtcp", "UNENCRYPTED_SRTP"].map String.toList
  let others := ["WSH=64".toList]
  let parameters :=
    ["unencrypted_srtcp", "Unencrypted_SRTP", "WSH=64", "UNENCRYPTED_SRTP"].map String.toList
  obtain ⟨hline, hrefused⟩ := suite_read_alike.2.2 text line suite "+007".toList
    "aead_aes_256_gcm".toList "inline:a|2^31".toList rest others parameters 7
    (words_eq_iff.mp (by decide +kernel)) htext (by decide +kernel)
    (by
      intro word hword m
      obtain rfl := List.mem_singleton.mp hword
      cases m <;> decide +kernel)
    (by decide +kernel) (words_eq_iff.mp (by decide +kernel))
  rw [String.ofList_toList] at hline
  refine ⟨htext, hline, ?_⟩
  exact (hrefused spoiled (words_eq_iff.mp (by decide +kernel))).2.mpr (by decide)

end Switchboard.Sdp.CryptoLine
