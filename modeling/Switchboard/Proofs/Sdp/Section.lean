import Mathlib.Data.List.Perm.Basic
import Switchboard.Proofs.Ranked
import Switchboard.Proofs.Text.Fold
import Switchboard.Sdp.Section

/-!
# What a media section tells

The attributes of a section are heard one after the other. Each adds what it
tells to what is known by then: a suite at the end, unless it is known already,
or ZRTP, or DTLS. Most attributes tell nothing of this, and it makes no
difference whether and where they stand. Whether encryption is insisted on is
known from the profile alone, and so is whether the section can be read at all.
-/

namespace Switchboard.Sdp

open Text Encryption

/-! ## Profiles -/

/-- The text is the name of the profile, in any letter case and with any blanks
around it. -/
def Profile.Spelled (p : Profile) (text : String) : Prop :=
  sameFolded (trim text.toList) p.name.toList = true

theorem Profile.table : Table all fun p => p.name.toList where
  complete p := by cases p <;> decide
  distinct := by decide +kernel

theorem Profile.upper_name (p : Profile) : upper p.name.toList = p.name.toList := by
  cases p <;> decide +kernel

theorem Profile.name_eq_iff {p : Profile} {s : List Char} :
    p.name = String.ofList (upper s) ↔ sameFolded s p.name.toList = true := by
  rw [← upper_eq_upper_iff, p.upper_name, ← String.toList_inj, String.toList_ofList, eq_comm]

theorem Profile.parse_eq_ok_iff {p : Profile} {text : String} :
    parse text = .ok p ↔ p.Spelled text := by
  have hfind : (all.find? fun p => p.name = String.ofList (upper (trim text.toList))) = some p ↔
      p.Spelled text :=
    table.find?_eq_some_iff fun _ => decide_eq_true_iff.trans name_eq_iff
  rw [← hfind]
  unfold parse
  dsimp only
  cases all.find? fun p => p.name = String.ofList (upper (trim text.toList)) <;> simp

/-! ## Attributes -/

/-- Blanks around the line are dropped, then `a=` in front of it. What is left is
a bare name, or a name and a value with blanks around them and a colon, the first
one, in between. -/
def Gives (line : String) (a : Attribute) : Prop :=
  ∃ body, (trim line.toList = ['a', '='] ++ body ∨
      trim line.toList = body ∧ ¬['a', '='] <+: body) ∧
    (':' ∉ body ∧ a = { name := body, value? := none } ∨
      ∃ name value, body = name ++ ':' :: value ∧ ':' ∉ name ∧
        a = { name := trim name, value? := some (trim value) })

namespace Attribute

variable {line : String} {a : Attribute}

theorem of_gives (h : Gives line a) : read line.toList = a := by
  obtain ⟨body, hbody, hcut⟩ := h
  have hfound : (dropHead? ['a', '='] (trim line.toList)).getD (trim line.toList) = body := by
    rcases hbody with hline | ⟨hline, hbare⟩
    · rw [dropHead?_eq_some_iff.mpr hline, Option.getD_some]
    · have hnone : dropHead? ['a', '='] (trim line.toList) = none := by
        rw [Option.eq_none_iff_forall_not_mem]
        intro rest hrest
        exact hbare ⟨rest, (dropHead?_eq_some_iff.mp hrest).symm.trans hline⟩
      rw [hnone, Option.getD_none, hline]
  unfold read
  dsimp only
  rw [hfound]
  rcases hcut with ⟨hcolon, rfl⟩ | ⟨name, value, rfl, hcolon, rfl⟩
  · rw [cutFirst_eq_none_iff.mpr hcolon]
  · rw [cutFirst_append value hcolon]

theorem exists_gives (line : String) : ∃ a, Gives line a := by
  have hbody : ∃ body, trim line.toList = ['a', '='] ++ body ∨
      trim line.toList = body ∧ ¬['a', '='] <+: body := by
    by_cases hhead : ['a', '='] <+: trim line.toList
    · obtain ⟨body, hbody⟩ := hhead
      exact ⟨body, .inl hbody.symm⟩
    · exact ⟨trim line.toList, .inr ⟨rfl, hhead⟩⟩
  obtain ⟨body, hbody⟩ := hbody
  cases hcut : cutFirst ':' body with
  | none => exact ⟨_, body, hbody, .inl ⟨cutFirst_eq_none_iff.mp hcut, rfl⟩⟩
  | some parts =>
      obtain ⟨rfl, hcolon⟩ := eq_append_of_cutFirst hcut
      exact ⟨_, _, hbody, .inr ⟨_, _, rfl, hcolon, rfl⟩⟩

theorem read_eq_iff : read line.toList = a ↔ Gives line a := by
  constructor
  · rintro rfl
    obtain ⟨a, ha⟩ := exists_gives line
    rwa [of_gives ha]
  · exact of_gives

/-- Attributes that tell nothing of encryption. -/
inductive Idle : Attribute → Prop
  | unrelated {a : Attribute}
      (h : a.name ∉ ["crypto", "zrtp-hash", "fingerprint"].map String.toList) : Idle a
  | bare {name : List Char} (h : name ∈ ["crypto", "fingerprint"].map String.toList) :
      Idle { name, value? := none }
  | unreadable {value : List Char} {e : CryptoLine.Error} (h : CryptoLine.read value = .error e) :
      Idle { name := "crypto".toList, value? := some value }

theorem suite?_eq_some_iff {suite : Srtp.Suite} : a.suite? = some suite ↔
    ∃ value c, a = { name := "crypto".toList, value? := some value } ∧
      CryptoLine.read value = .ok c ∧ c.suite = suite := by
  obtain ⟨name, value?⟩ := a
  unfold suite?
  constructor
  · intro h
    rw [Option.ite_none_right_eq_some, Option.bind_eq_some_iff] at h
    obtain ⟨rfl, value, rfl, h⟩ := h
    cases hread : CryptoLine.read value with
    | error e =>
        rw [hread] at h
        cases h
    | ok c =>
        rw [hread] at h
        exact ⟨value, c, rfl, hread, Option.some.inj h⟩
  · rintro ⟨value, c, heq, hread, rfl⟩
    cases heq
    refine (if_pos rfl).trans ?_
    rw [Option.bind_some, hread]
    rfl

theorem Idle.suite? (h : a.Idle) : a.suite? = none := by
  rw [Option.eq_none_iff_forall_not_mem]
  intro suite hsuite
  obtain ⟨value, c, rfl, hread, -⟩ := suite?_eq_some_iff.mp hsuite
  cases h with
  | unrelated h => exact h (by simp)
  | unreadable h =>
      rw [hread] at h
      cases h

theorem Idle.announcesZrtp (h : a.Idle) : a.announcesZrtp = false := by
  apply decide_eq_false
  intro hname
  cases h with
  | unrelated h => exact h (by simp [hname])
  | bare h =>
      dsimp only at hname
      subst hname
      exact absurd h (by decide)
  | unreadable h =>
      have hname : "crypto".toList = "zrtp-hash".toList := hname
      exact absurd hname (by decide)

theorem announcesDtls_iff : a.announcesDtls = true ↔
    ∃ value, a = { name := "fingerprint".toList, value? := some value } := by
  obtain ⟨name, value?⟩ := a
  unfold announcesDtls
  rw [Bool.and_eq_true, decide_eq_true_iff, Option.isSome_iff_exists]
  constructor
  · rintro ⟨rfl, value, rfl⟩
    exact ⟨value, rfl⟩
  · rintro ⟨value, heq⟩
    cases heq
    exact ⟨rfl, value, rfl⟩

theorem Idle.announcesDtls (h : a.Idle) : a.announcesDtls = false := by
  rw [Bool.eq_false_iff, Ne, announcesDtls_iff]
  rintro ⟨value, rfl⟩
  cases h with
  | unrelated h => exact h (by simp)

end Attribute

/-! ## One attribute after the other -/

/-- What is known once one more attribute has been heard. -/
def heard (told : Capabilities) (a : Attribute) : Capabilities where
  suites := a.suite?.elim told.suites (Ranked.add told.suites)
  zrtp? := told.zrtp?.or (if a.announcesZrtp then some .defaults else none)
  dtls := told.dtls || a.announcesDtls
  mandatory := told.mandatory

/-- Nothing that was known is forgotten, and new suites come last. -/
structure Extends (told told' : Capabilities) : Prop where
  suites : told.suites <+: told'.suites
  zrtp : ∀ preferences, told.zrtp? = some preferences → told'.zrtp? = some preferences
  dtls : told.dtls = true → told'.dtls = true
  mandatory : told'.mandatory = told.mandatory

variable {told told' told'' : Capabilities} {a : Attribute}

theorem Extends.refl (told : Capabilities) : Extends told told where
  suites := List.prefix_rfl
  zrtp _ := id
  dtls := id
  mandatory := rfl

theorem Extends.trans (h : Extends told told') (h' : Extends told' told'') :
    Extends told told'' where
  suites := h.suites.trans h'.suites
  zrtp preferences hzrtp := h'.zrtp preferences (h.zrtp preferences hzrtp)
  dtls hdtls := h'.dtls (h.dtls hdtls)
  mandatory := h'.mandatory.trans h.mandatory

theorem extends_heard (told : Capabilities) (a : Attribute) : Extends told (heard told a) where
  suites := by
    unfold heard
    cases a.suite? with
    | none => exact List.prefix_rfl
    | some suite => exact Ranked.prefix_add told.suites suite
  zrtp preferences h := by
    unfold heard
    rw [h, Option.some_or]
  dtls h := by
    unfold heard
    rw [h, Bool.true_or]
  mandatory := rfl

theorem extends_foldl_heard (told : Capabilities) (as : List Attribute) :
    Extends told (as.foldl heard told) := by
  induction as generalizing told with
  | nil => exact .refl told
  | cons a as ih => exact (extends_heard told a).trans (ih (heard told a))

theorem heard_of_idle (h : a.Idle) (told : Capabilities) : heard told a = told := by
  unfold heard
  rw [h.suite?, h.announcesZrtp, h.announcesDtls, Bool.or_false, if_neg Bool.false_ne_true,
    Option.or_none]
  rfl

theorem ofList_suites_snoc (as : List Attribute) (a : Attribute) :
    Ranked.ofList ((as ++ [a]).filterMap Attribute.suite?) =
      a.suite?.elim (Ranked.ofList (as.filterMap Attribute.suite?))
        (Ranked.add (Ranked.ofList (as.filterMap Attribute.suite?))) := by
  rw [List.filterMap_append]
  cases hsuite : a.suite? with
  | none =>
      rw [List.filterMap_cons_none hsuite, List.filterMap_nil, List.append_nil]
      rfl
  | some suite =>
      rw [List.filterMap_cons_some hsuite, List.filterMap_nil, Ranked.ofList_snoc]
      rfl

namespace Section

variable {profile : Profile} {lines lines' before after : List String} {line : String}

/-- The attributes of a section are heard in order. -/
theorem capabilities_eq_foldl (s : Section) :
    s.capabilities = s.attributes.foldl heard { mandatory := s.profile.isSecure } := by
  unfold capabilities
  induction s.attributes using List.reverseRecOn with
  | nil => rfl
  | append_singleton as a ih =>
      rw [List.foldl_append, ← ih, ofList_suites_snoc, List.foldl_cons, List.foldl_nil,
        List.any_append, List.any_append]
      unfold heard
      rw [List.any_cons, List.any_cons, List.any_nil, List.any_nil, Bool.or_false, Bool.or_false]
      congr 1
      cases as.any Attribute.announcesZrtp <;> rfl

/-- A line that tells nothing may as well be left out. -/
theorem capabilities_of_idle (h : (Attribute.read line.toList).Idle) :
    capabilities { profile, lines := before ++ line :: after } =
      capabilities { profile, lines := before ++ after } := by
  rw [capabilities_eq_foldl, capabilities_eq_foldl]
  unfold attributes
  dsimp only
  rw [List.map_append, List.map_append, List.map_cons, List.foldl_append, List.foldl_append,
    List.foldl_cons, heard_of_idle h]

theorem extends_capabilities (profile : Profile) (lines more : List String) :
    Extends (capabilities { profile, lines })
      (capabilities { profile, lines := lines ++ more }) := by
  rw [capabilities_eq_foldl, capabilities_eq_foldl]
  unfold attributes
  dsimp only
  rw [List.map_append, List.foldl_append]
  exact extends_foldl_heard _ _

end Section

/-! ## Lines -/

/-- The suite that a line offers, if it is a crypto line that can be read. -/
def offered? (line : String) : Option Srtp.Suite :=
  (Attribute.read line.toList).suite?

/-- The line is named as a crypto line, whether it can be read or not. -/
def isCrypto (line : String) : Bool :=
  (Attribute.read line.toList).name = "crypto".toList

theorem offered?_eq_some_iff {line : String} {suite : Srtp.Suite} : offered? line = some suite ↔
    ∃ value c, Gives line { name := "crypto".toList, value? := some value } ∧
      CryptoLine.read value = .ok c ∧ c.suite = suite := by
  unfold offered?
  simp only [Attribute.suite?_eq_some_iff, Attribute.read_eq_iff]

theorem isCrypto_iff {line : String} :
    isCrypto line = true ↔ ∃ a, Gives line a ∧ a.name = "crypto".toList := by
  unfold isCrypto
  rw [decide_eq_true_iff]
  constructor
  · intro hname
    exact ⟨_, Attribute.read_eq_iff.mp rfl, hname⟩
  · rintro ⟨a, hgives, hname⟩
    rwa [Attribute.of_gives hgives]

theorem isCrypto_of_offered {line : String} {suite : Srtp.Suite} (h : offered? line = some suite) :
    isCrypto line = true := by
  obtain ⟨value, -, hgives, -⟩ := offered?_eq_some_iff.mp h
  exact isCrypto_iff.mpr ⟨_, hgives, rfl⟩

theorem filterMap_offered_filter (lines : List String) :
    (lines.filter isCrypto).filterMap offered? = lines.filterMap offered? := by
  rw [List.filterMap_filter]
  apply List.filterMap_congr
  intro line _
  cases hline : offered? line with
  | none => exact ite_self none
  | some suite => rw [if_pos (isCrypto_of_offered hline)]

/-- What a section with this profile and these lines tells. -/
structure Told (profile : Profile) (lines : List String) (told : Capabilities) : Prop where
  suites : told.suites = (lines.filterMap offered?).eraseDups
  zrtp : ∀ preferences, told.zrtp? = some preferences ↔ preferences = .defaults ∧
    ∃ line ∈ lines, ∃ a, Gives line a ∧ a.name = "zrtp-hash".toList
  dtls : told.dtls = true ↔
    ∃ line ∈ lines, ∃ value, Gives line { name := "fingerprint".toList, value? := some value }
  mandatory : told.mandatory = profile.isSecure

namespace Section

variable {profile : Profile} {lines lines' : List String}

theorem any_attributes_iff {p : Attribute → Bool} :
    (attributes { profile, lines }).any p = true ↔
      ∃ line ∈ lines, ∃ a, Gives line a ∧ p a = true := by
  rw [List.any_eq_true]
  constructor
  · rintro ⟨a, ha, hp⟩
    obtain ⟨line, hline, rfl⟩ := List.mem_map.mp ha
    exact ⟨line, hline, _, Attribute.read_eq_iff.mp rfl, hp⟩
  · rintro ⟨line, hline, a, hgives, hp⟩
    exact ⟨a, List.mem_map.mpr ⟨line, hline, Attribute.of_gives hgives⟩, hp⟩

theorem told_capabilities (profile : Profile) (lines : List String) :
    Told profile lines (capabilities { profile, lines }) where
  suites := by
    show Ranked.ofList ((lines.map fun line => Attribute.read line.toList).filterMap _) = _
    rw [List.filterMap_map, Ranked.ofList_eq_eraseDups]
    rfl
  zrtp preferences := by
    show (if (attributes { profile, lines }).any Attribute.announcesZrtp then
      some Zrtp.Preferences.defaults else none) = some preferences ↔ _
    rw [Option.ite_none_right_eq_some, Option.some.injEq, any_attributes_iff, and_comm, eq_comm]
    unfold Attribute.announcesZrtp
    simp only [decide_eq_true_iff]
  dtls := by
    show (attributes { profile, lines }).any Attribute.announcesDtls = true ↔ _
    rw [any_attributes_iff]
    refine exists_congr fun line => and_congr_right fun _ => ?_
    constructor
    · rintro ⟨a, hgives, hdtls⟩
      obtain ⟨value, rfl⟩ := Attribute.announcesDtls_iff.mp hdtls
      exact ⟨value, hgives⟩
    · rintro ⟨value, hgives⟩
      exact ⟨_, hgives, Attribute.announcesDtls_iff.mpr ⟨value, rfl⟩⟩
  mandatory := rfl

/-- Only crypto lines have to stay in order. -/
theorem capabilities_of_perm (hperm : lines'.Perm lines)
    (hcrypto : lines'.filter isCrypto = lines.filter isCrypto) :
    capabilities { profile, lines := lines' } = capabilities { profile, lines } := by
  have hattributes : (attributes { profile, lines := lines' }).Perm
      (attributes { profile, lines }) := hperm.map _
  have hsuites : (attributes { profile, lines := lines' }).filterMap Attribute.suite? =
      (attributes { profile, lines }).filterMap Attribute.suite? :=
    calc (attributes { profile, lines := lines' }).filterMap Attribute.suite?
      _ = lines'.filterMap offered? := List.filterMap_map
      _ = (lines'.filter isCrypto).filterMap offered? := (filterMap_offered_filter lines').symm
      _ = (lines.filter isCrypto).filterMap offered? := by rw [hcrypto]
      _ = lines.filterMap offered? := filterMap_offered_filter lines
      _ = (attributes { profile, lines }).filterMap Attribute.suite? := List.filterMap_map.symm
  unfold capabilities
  rw [hsuites, hattributes.any_eq, hattributes.any_eq]

end Section

theorem capabilitiesOf_of_parse {text : String} {profile : Profile}
    (h : Profile.parse text = .ok profile) (lines : List String) :
    capabilitiesOf text lines = .ok (Section.capabilities { profile, lines }) := by
  unfold capabilitiesOf
  rw [h]
  rfl

/-- A section fails by its profile alone. -/
theorem capabilitiesOf_eq_error_iff {text : String} {lines : List String} :
    (∃ e, capabilitiesOf text lines = .error e) ↔ ∀ profile : Profile, ¬profile.Spelled text := by
  unfold capabilitiesOf
  cases hparse : Profile.parse text with
  | error e =>
      refine ⟨fun _ profile hprofile => ?_, fun _ => ⟨e, rfl⟩⟩
      rw [Profile.parse_eq_ok_iff.mpr hprofile] at hparse
      cases hparse
  | ok profile =>
      constructor
      · rintro ⟨e, ⟨⟩⟩
      · exact fun hnone => absurd (Profile.parse_eq_ok_iff.mp hparse) (hnone profile)

/-- **What a section tells.** A section cannot be read exactly if its profile is
none of the six, whatever its lines are. A line counts by the name and the value
that it gives. The section tells the suites of the crypto lines that can be read,
each once and in the order in which they first come; ZRTP with what every party
holds, if some line is named for its hash; DTLS, if some line gives a fingerprint;
and it insists on encryption if the profile does. Lines that tell nothing of this
may stand anywhere or nowhere, any lines but the crypto lines may be moved, and
further lines only add to what is told. -/
theorem told_by_section (text : String) (lines : List String) :
    ((∃ e, capabilitiesOf text lines = .error e) ↔ ∀ profile : Profile, ¬profile.Spelled text) ∧
    (∀ line, (∀ suite, offered? line = some suite ↔
        ∃ value c, Gives line { name := "crypto".toList, value? := some value } ∧
          CryptoLine.read value = .ok c ∧ c.suite = suite) ∧
      (isCrypto line = true ↔ ∃ a, Gives line a ∧ a.name = "crypto".toList)) ∧
    ∀ profile : Profile, profile.Spelled text →
      ∃ told, capabilitiesOf text lines = .ok told ∧ Told profile lines told ∧
        (∀ before line after a, lines = before ++ line :: after → Gives line a → a.Idle →
          capabilitiesOf text (before ++ after) = .ok told) ∧
        (∀ lines' : List String, lines'.Perm lines →
          lines'.filter isCrypto = lines.filter isCrypto →
          capabilitiesOf text lines' = .ok told) ∧
        ∀ more, ∃ told', capabilitiesOf text (lines ++ more) = .ok told' ∧ Extends told told' := by
  refine ⟨capabilitiesOf_eq_error_iff, fun _ => ⟨fun _ => offered?_eq_some_iff, isCrypto_iff⟩, ?_⟩
  intro profile hprofile
  have htold := capabilitiesOf_of_parse (Profile.parse_eq_ok_iff.mpr hprofile)
  refine ⟨_, htold lines, Section.told_capabilities profile lines, ?_, ?_, ?_⟩
  · rintro before line after a rfl hgives hidle
    rw [← Attribute.of_gives hgives] at hidle
    rw [htold, Section.capabilities_of_idle hidle]
  · intro lines' hperm hcrypto
    rw [htold, Section.capabilities_of_perm hperm hcrypto]
  · intro more
    exact ⟨_, htold (lines ++ more), Section.extends_capabilities profile lines more⟩

/-- A crypto line without a value stands between lines that do count, the last of
which has neither `a=` nor the letter case of the name that it gives. -/
theorem told_by_section_around_bare_line :
    let text := " rtp/savp"
    let before := ["a=crypto:1 AEAD_AES_256_GCM inline:a", "a=zrtp-hash:1.10 fe30efd0"]
    let after := ["a=fingerprint:sha-256 AB:CD", "crypto:2 aes_256_cm_hmac_sha1_80 inline:b"]
    let told : Capabilities :=
      { suites := [{ cipher := .aesGcm256 }, { cipher := .aesCm256Sha80 }]
        zrtp? := some .defaults, dtls := true, mandatory := true }
    Profile.savp.Spelled text ∧
      Gives "a=crypto" { name := "crypto".toList, value? := none } ∧
      capabilitiesOf text (before ++ "a=crypto" :: after) = .ok told ∧
      capabilitiesOf text (before ++ after) = .ok told := by
  intro text before after told
  have hprofile : Profile.savp.Spelled text := by
    unfold Profile.Spelled
    decide +kernel
  have hgives : Gives "a=crypto" { name := "crypto".toList, value? := none } :=
    Attribute.read_eq_iff.mp (by decide +kernel)
  have hfull : capabilitiesOf text (before ++ "a=crypto" :: after) = .ok told := by
    decide +kernel
  obtain ⟨found, hfound, -, hidle, -⟩ :=
    (told_by_section text (before ++ "a=crypto" :: after)).2.2 .savp hprofile
  have hsame : found = told := Except.ok.inj (hfound.symm.trans hfull)
  subst hsame
  exact ⟨hprofile, hgives, hfull, hidle before _ after _ rfl hgives (.bare (by decide))⟩

end Switchboard.Sdp
