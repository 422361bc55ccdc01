import Switchboard.Proofs.Srtp.Suite
import Switchboard.Sdp.Section

/-!
# Crypto lines that are read back

A crypto line is written as words, and its fields are its first three words in
order. The key is a word of its own, so it may hold anything but blanks, a colon
included: the line is cut at its first colon, which stands before the tag. A
section that offers suites in such lines tells those suites, each once, and
nothing else.
-/

namespace Switchboard.Sdp

open Text

variable {c : CryptoLine}

namespace CryptoLine

/-! ## Words of a line -/

/-- Words that follow the tag. -/
def fields (c : CryptoLine) : List (List Char) :=
  c.suite.cipher.name.toList :: c.key.toList :: c.suite.modifierWords

theorem write_eq (c : CryptoLine) :
    c.write = decimal c.tag.toNat ++ c.fields.flatMap (' ' :: ·) := by
  have hmodifiers : c.suite.writeModifiers = c.suite.modifierWords.flatMap (' ' :: ·) := by
    unfold Srtp.Suite.modifierWords
    rw [List.flatMap_map]
    rfl
  unfold write fields
  rw [hmodifiers, List.flatMap_cons, List.flatMap_cons]
  simp

theorem word_decimal (n : Nat) : Word (decimal n) :=
  ⟨decimal_ne_nil n, fun _ hc => isBlank_of_isDigit (isDigit_of_mem_decimal hc)⟩

theorem word_of_mem_fields (hkey : Word c.key.toList) {t : List Char} (ht : t ∈ c.fields) :
    Word t := by
  rcases List.mem_cons.mp ht with rfl | ht
  · exact c.suite.cipher.name_plain.word
  · rcases List.mem_cons.mp ht with rfl | ht
    · exact hkey
    · exact (c.suite.modifierWords_plain ht).word

theorem words_write (hkey : Word c.key.toList) :
    words c.write = decimal c.tag.toNat :: c.fields := by
  have htag := (word_decimal c.tag.toNat).words_eq
  rw [write_eq, words_append_flatMap (by decide) fun _ ht => word_of_mem_fields hkey ht, htag,
    List.singleton_append]

theorem clean_write (hkey : Word c.key.toList) : Clean isBlank c.write := by
  have htag := word_decimal c.tag.toNat
  rw [write_eq]
  constructor
  · rw [List.head?_append_of_ne_nil _ htag.1]
    exact htag.clean.first
  · refine last_append_flatMap htag.clean.last fun t ht => ?_
    have hword := word_of_mem_fields hkey ht
    exact ⟨hword.1, hword.clean.last⟩

/-! ## Reading what is written -/

theorem readTag_decimal (tag : UInt32) : readTag (decimal tag.toNat) = some tag := by
  unfold readTag
  rw [natural?_decimal tag.toNat_lt, Option.map_some, UInt32.ofNat_toNat]

theorem read_write (hkey : Word c.key.toList) : read c.write = .ok c := by
  unfold read
  rw [words_write hkey]
  dsimp only
  rw [readTag_decimal]
  dsimp only [fields]
  rw [Srtp.Cipher.read_name]
  dsimp only
  rw [Srtp.Suite.modifyKnown_modifierWords, String.ofList_toList]

/-- The key that is read is one of the words of the line. -/
theorem key_word {s : List Char} (h : read s = .ok c) : Word c.key.toList := by
  unfold read at h
  cases hwords : words s with
  | nil =>
      rw [hwords] at h
      exact absurd h (by simp)
  | cons tag fields =>
      rw [hwords] at h
      dsimp only at h
      cases htag : readTag tag with
      | none =>
          rw [htag] at h
          exact absurd h (by simp)
      | some n =>
          rw [htag] at h
          match fields, hwords, h with
          | [], _, h => exact absurd h (by simp)
          | [_], _, h => exact absurd h (by simp)
          | cipher :: key :: parameters, hwords, h =>
              have hkey : key ∈ words s := by
                rw [hwords]
                exact List.mem_cons_of_mem tag (List.mem_cons_of_mem cipher List.mem_cons_self)
              dsimp only at h
              split at h
              · exact absurd h (by simp)
              · rw [Except.ok.injEq] at h
                subst h
                show Word (String.ofList key).toList
                rw [String.toList_ofList]
                exact mem_words hkey

/-! ## Whole lines -/

/-- What the reader of a section makes of a line, if it is a crypto line. -/
def ofLine? (line : String) : Option (Except Error CryptoLine) :=
  let a := Attribute.read line.toList
  if a.name = "crypto".toList then a.value?.map read else none

/-- The line as an attribute of its section. -/
def toAttribute (c : CryptoLine) : Attribute where
  name := "crypto".toList
  value? := some c.write

theorem readAttribute_line (hkey : Word c.key.toList) :
    Attribute.read c.line.toList = c.toAttribute := by
  have hclean := clean_write hkey
  have hword : Word "a=crypto".toList := word_of_all (by decide) (by decide +kernel)
  have hline : Clean isBlank ("a=crypto:".toList ++ c.write) :=
    clean_append_cons hword.clean.first (c := ':') (by decide) hclean.last
  have hhead : dropHead? ['a', '='] ("a=crypto:".toList ++ c.write) =
      some ("crypto".toList ++ ':' :: c.write) := by
    rw [dropHead?_eq_some_iff]
    rfl
  unfold Attribute.read line
  rw [String.toList_ofList, trim_of_clean hline]
  dsimp only
  rw [hhead, Option.getD_some, cutFirst_append c.write (by decide)]
  dsimp only
  rw [trim_of_clean hclean]
  rfl

theorem ofLine?_line (hkey : Word c.key.toList) : ofLine? c.line = some (.ok c) := by
  have hread := read_write hkey
  unfold ofLine?
  rw [readAttribute_line hkey]
  unfold toAttribute
  dsimp only
  refine (if_pos rfl).trans ?_
  rw [Option.map_some, hread]

end CryptoLine

/-! ## Sections of crypto lines -/

theorem Attribute.suite?_toAttribute (hkey : Word c.key.toList) :
    c.toAttribute.suite? = some c.suite := by
  have hread := CryptoLine.read_write hkey
  unfold suite? CryptoLine.toAttribute
  dsimp only
  refine (if_pos rfl).trans ?_
  rw [Option.bind_some, hread]
  rfl

theorem Attribute.announcesZrtp_toAttribute (c : CryptoLine) :
    c.toAttribute.announcesZrtp = false := by
  have hname : "crypto".toList ≠ "zrtp-hash".toList := by decide
  exact decide_eq_false hname

theorem Attribute.announcesDtls_toAttribute (c : CryptoLine) :
    c.toAttribute.announcesDtls = false := by
  have hname : "crypto".toList ≠ "fingerprint".toList := by decide
  have hdecide : decide (c.toAttribute.name = "fingerprint".toList) = false :=
    decide_eq_false hname
  unfold announcesDtls
  rw [hdecide, Bool.false_and]

theorem capabilities_of_lines {lines : List CryptoLine} (h : ∀ c ∈ lines, Word c.key.toList)
    (profile : Profile) :
    Section.capabilities { profile, lines := lines.map (·.line) } =
      { suites := (lines.map (·.suite)).eraseDups, zrtp? := none, dtls := false
        mandatory := profile.isSecure } := by
  have hattributes : Section.attributes { profile, lines := lines.map (·.line) } =
      lines.map (·.toAttribute) := by
    unfold Section.attributes
    rw [List.map_map]
    apply List.map_congr_left
    intro c hc
    rw [Function.comp_apply, CryptoLine.readAttribute_line (h c hc)]
  have hsuites : (lines.map (·.toAttribute)).filterMap Attribute.suite? =
      lines.map (·.suite) := by
    rw [List.filterMap_map, ← List.filterMap_eq_map]
    apply List.filterMap_congr
    intro c hc
    rw [Function.comp_apply, Function.comp_apply, Attribute.suite?_toAttribute (h c hc)]
  have hzrtp : (lines.map (·.toAttribute)).any Attribute.announcesZrtp = false := by
    simp [Attribute.announcesZrtp_toAttribute]
  have hdtls : (lines.map (·.toAttribute)).any Attribute.announcesDtls = false := by
    simp [Attribute.announcesDtls_toAttribute]
  unfold Section.capabilities
  rw [hattributes, hsuites, hzrtp, hdtls, Ranked.ofList_eq_eraseDups]
  rfl

namespace CryptoLine

theorem suites_offerEach (suites : List Srtp.Suite) (key : Nat → Srtp.Suite → String) :
    (offerEach suites key).map (·.suite) = suites := by
  unfold offerEach
  apply List.ext_getElem
  · simp
  · intro i hi hi'
    simp

theorem tag_toNat {i : Nat} (h : i < UInt32.size - 1) : (UInt32.ofNat (i + 1)).toNat = i + 1 :=
  UInt32.toNat_ofNat_of_lt' (by omega)

/-- **Crypto lines tell what they were written for.** A section of the lines
that offer some suites, with a key that is one word for each, tells these
suites without later repetitions, and neither ZRTP nor DTLS. Each line is read
back with its number, counted from one, its suite and its key. Whatever text is
read as a crypto line, the line that is written for it is read as the same. -/
theorem offer_told {suites : List Srtp.Suite} {key : Nat → Srtp.Suite → String}
    {protocol : String} {profile : Profile} (hlength : suites.length < UInt32.size - 1)
    (hkey : ∀ i suite, suites[i]? = some suite → Word (key i suite).toList)
    (hprofile : Profile.parse protocol = .ok profile) :
    let lines := (offerEach suites key).map (·.line)
    capabilitiesOf protocol lines =
        .ok { suites := suites.eraseDups, zrtp? := none, dtls := false
              mandatory := profile.isSecure } ∧
      lines.length = suites.length ∧
      (∀ i suite, suites[i]? = some suite → ∃ line c, lines[i]? = some line ∧
        ofLine? line = some (.ok c) ∧ c.tag.toNat = i + 1 ∧ c.suite = suite ∧
        c.key = key i suite) ∧
      ∀ text c, parse text = .ok c → ofLine? c.line = some (.ok c) := by
  intro lines
  have hwords : ∀ c ∈ offerEach suites key, Word c.key.toList := by
    intro c hc
    obtain ⟨i, hi, rfl⟩ := List.mem_mapIdx.mp hc
    exact hkey i suites[i] (List.getElem?_eq_getElem hi)
  refine ⟨?_, ?_, ?_, ?_⟩
  · have htold := capabilities_of_lines hwords profile
    rw [suites_offerEach] at htold
    unfold capabilitiesOf
    rw [hprofile]
    exact congrArg Except.ok htold
  · simp [lines, offerEach]
  · intro i suite hsuite
    obtain ⟨hi, rfl⟩ := List.getElem?_eq_some_iff.mp hsuite
    refine ⟨_, ⟨UInt32.ofNat (i + 1), suites[i], key i suites[i]⟩, ?_,
      ofLine?_line (hkey i _ hsuite), tag_toNat (by omega), rfl, rfl⟩
    simp [lines, offerEach, hsuite]
  · intro text c h
    exact ofLine?_line (key_word h)

/-- Two suites, one of them offered twice with another key. -/
theorem offer_told_for_repeated :
    let suites : List Srtp.Suite :=
      [{ cipher := .aesGcm256, unencryptedRtp := true, unencryptedRtcp := true },
        { cipher := .aesCm128Sha80 },
        { cipher := .aesGcm256, unencryptedRtp := true, unencryptedRtcp := true }]
    let key (i : Nat) (_ : Srtp.Suite) : String := if i = 0 then "inline:a|2^31" else "inline:b|1:4"
    suites.length < UInt32.size - 1 ∧
      (∀ i suite, suites[i]? = some suite → Word (key i suite).toList) ∧
      Profile.parse " rtp/savp" = .ok .savp ∧
      capabilitiesOf " rtp/savp" ((offerEach suites key).map (·.line)) =
        .ok { suites := suites.take 2, zrtp? := none, dtls := false, mandatory := true } := by
  intro suites key
  have hlength : suites.length < UInt32.size - 1 := by decide
  have hkey : ∀ i suite, suites[i]? = some suite → Word (key i suite).toList := by
    intro i suite _
    by_cases hi : i = 0
    · rw [show key i suite = "inline:a|2^31" from if_pos hi]
      exact word_of_all (by decide) (by decide +kernel)
    · rw [show key i suite = "inline:b|1:4" from if_neg hi]
      exact word_of_all (by decide) (by decide +kernel)
  have hprofile : Profile.parse " rtp/savp" = .ok .savp := by decide +kernel
  have hdistinct : suites.eraseDups = suites.take 2 := by decide +kernel
  obtain ⟨htold, -⟩ := offer_told hlength hkey hprofile
  rw [hdistinct] at htold
  exact ⟨hlength, hkey, hprofile, htold⟩

end CryptoLine

end Switchboard.Sdp
