import Switchboard.Proofs.Encryption.Answer
import Switchboard.Proofs.Zrtp.Preferences

/-!
# What configured parties can count on

Configured texts may say anything: what cannot be read is passed over, and
what is left is completed with defaults and with the algorithms that every
party must hold. So two parties that want the same mode always agree on it,
and no post-quantum key agreement is ever joined with a weaker hash or cipher
than the strongest.
-/

namespace Switchboard.Zrtp

/-- Preferences as parties come by them: made of lists, or read from
settings. -/
inductive Preferences.Built : Preferences → Prop
  | ofLists (ciphers : List Cipher) (hashes : List Hash) (authTags : List AuthTag)
      (keyAgreements : List KeyAgreement) (sas : List Sas) :
      Built (Preferences.ofLists ciphers hashes authTags keyAgreements sas)
  | configured (lists : Settings.ZrtpLists) : Built lists.preferences

theorem Preferences.Built.complete {p : Preferences} (h : p.Built) : p.Complete := by
  cases h with
  | ofLists ciphers hashes authTags keyAgreements sas => exact complete_ofLists _ _ _ _ _
  | configured lists => exact complete_ofLists _ _ _ _ _

end Switchboard.Zrtp

namespace Switchboard.Encryption

open Settings (Media)

variable {policy : Policy} {peer : Capabilities} {offerer : Offerer} {r : Agreement}

/-! ## The post-quantum floor -/

/-- Means of any other kind are not post-quantum. -/
theorem mode_of_isPostQuantum (h : r.isPostQuantum = true) : r.mode = .zrtp := by
  cases r with
  | zrtp algorithms => rfl
  | plain => exact Bool.noConfusion h
  | srtp suite => exact Bool.noConfusion h
  | dtls => exact Bool.noConfusion h

/-- **The post-quantum floor.** However the preferences of the two sides have
come about and whoever offers, a post-quantum agreement is on a post-quantum
key agreement that both sides hold, with the longest hash and with the cipher
of the longest key. -/
theorem post_quantum_floor (hhere : policy.catalog.zrtp.Built)
    (hpeer : ∀ theirs, peer.zrtp? = some theirs → theirs.Built)
    (h : negotiate policy peer offerer = .ok r) (hquantum : r.isPostQuantum = true) :
    ∃ algorithms theirs, r = .zrtp algorithms ∧ peer.zrtp? = some theirs ∧
      algorithms.hash = .s512 ∧ algorithms.cipher = .aes3 ∧
      algorithms.keyAgreement.isPostQuantum = true ∧
      algorithms.keyAgreement ∈ policy.catalog.zrtp.keyAgreements ∧
      algorithms.keyAgreement ∈ theirs.keyAgreements := by
  have hmode := mode_of_isPostQuantum hquantum
  have hagree : agreeOn policy peer offerer .zrtp = some r := by
    have hencrypted : r.isEncrypted = true := by
      rw [Agreement.isEncrypted, hmode]
      rfl
    rw [← hmode]
    exact agreeOn_of_negotiate h hencrypted
  obtain ⟨algorithms, theirs, rfl, htheirs, hselect⟩ := agreeOn_zrtp_eq_some hagree
  have hours := hhere.complete
  have hother := (hpeer theirs htheirs).complete
  refine ⟨algorithms, theirs, rfl, htheirs, ?_⟩
  rcases hselect with hselect | hselect
  · obtain ⟨hhash, hcipher⟩ := Zrtp.select_of_isPostQuantum hours hother hselect hquantum
    obtain ⟨hwithin, hwithin'⟩ := Zrtp.select_within hselect
    exact ⟨hhash, hcipher, hquantum, hwithin.keyAgreement, hwithin'.keyAgreement⟩
  · obtain ⟨hhash, hcipher⟩ := Zrtp.select_of_isPostQuantum hother hours hselect hquantum
    obtain ⟨hwithin, hwithin'⟩ := Zrtp.select_within hselect
    exact ⟨hhash, hcipher, hquantum, hwithin'.keyAgreement, hwithin.keyAgreement⟩

/-- The offer asks for short ciphers first and is configured with words that
mean nothing; the answering side has only said that it wants the key
agreement. -/
theorem post_quantum_floor_of_short_ciphers :
    let offered : Settings.ZrtpLists :=
      { ciphers? := some "AES1,2FS1", hashes? := some "N256,nothing"
        keyAgreements? := some "KYB1,KYB1" }
    let held : Zrtp.Preferences := .ofLists [] [] [] [.dh2k, .kyb1] []
    let policy : Policy := { mode := .zrtp, catalog := { zrtp := held } }
    let peer : Capabilities := { zrtp? := some offered.preferences }
    ∃ algorithms, negotiate policy peer .peer = .ok (.zrtp algorithms) ∧
      algorithms.hash = .s512 ∧ algorithms.cipher = .aes3 ∧ algorithms.keyAgreement = .kyb1 := by
  intro offered held policy peer
  have h : negotiate policy peer .peer = .ok (.zrtp {
      cipher := .aes3, hash := .s512, authTag := .hs80, keyAgreement := .kyb1, sas := .b32 }) := by
    decide +kernel
  have hpeer : ∀ theirs, peer.zrtp? = some theirs → theirs.Built := by
    intro theirs htheirs
    obtain rfl := Option.some.inj htheirs
    exact .configured offered
  have hhere : policy.catalog.zrtp.Built := .ofLists [] [] [] [.dh2k, .kyb1] []
  obtain ⟨algorithms, -, heq, -, hhash, hcipher, -⟩ := post_quantum_floor hhere hpeer h rfl
  obtain rfl := Agreement.zrtp.inj heq
  exact ⟨_, h, hhash, hcipher, rfl⟩

/-! ## The same mode on both sides -/

theorem suites_ne_nil (m : Media) : m.catalog.suites ≠ [] := by
  unfold Settings.Media.catalog
  cases m.srtpSuites? with
  | none => exact List.cons_ne_nil _ _
  | some text => exact Srtp.Suite.orDefaults_ne_nil _

theorem haveMeans_of_configured {here there : Media} (hmode : here.encryption = there.encryption)
    (hencrypted : here.encryption.isEncrypted = true)
    (hsuites : here.encryption = .srtp → here.srtpSuites? = there.srtpSuites?) :
    HaveMeans here.policy there.policy.advertised here.encryption := by
  cases hm : here.encryption with
  | plain =>
      rw [hm] at hencrypted
      exact Bool.noConfusion hencrypted
  | srtp =>
      obtain ⟨suite, hsuite⟩ := List.exists_mem_of_ne_nil _ (suites_ne_nil here)
      have hsame : there.catalog.suites = here.catalog.suites := by
        unfold Settings.Media.catalog
        rw [hsuites hm]
      refine ⟨suite, hsuite, mem_advertised_suites.mpr ⟨hmode.symm.trans hm, ?_⟩⟩
      show suite ∈ there.catalog.suites
      rwa [hsame]
  | zrtp =>
      have hadvertised := advertised_zrtp_eq_some_iff.mpr
        (⟨hmode.symm.trans hm, rfl⟩ : there.policy.mode = .zrtp ∧ _)
      have hours := (Zrtp.Preferences.Built.configured here.zrtp).complete
      have htheirs := (Zrtp.Preferences.Built.configured there.zrtp).complete
      exact ⟨_, hadvertised, hours.meet htheirs⟩
  | dtls => exact ⟨rfl, advertised_dtls_iff.mpr ⟨hmode.symm.trans hm, rfl⟩⟩

/-- **Configured parties agree.** Two parties that are configured with the same
encrypted mode, and for SRTP with the same text of suites, agree on that mode,
whichever of them offers and whatever else their settings say. -/
theorem configured_parties_agree (here there : Media) (offerer : Offerer)
    (hmode : here.encryption = there.encryption)
    (hencrypted : here.encryption.isEncrypted = true)
    (hsuites : here.encryption = .srtp → here.srtpSuites? = there.srtpSuites?) :
    ∃ r, negotiate here.policy there.policy.advertised offerer = .ok r ∧
      r.mode = here.encryption := by
  have hagree : (agreeOn here.policy there.policy.advertised offerer here.encryption).isSome :=
    agreeOn_isSome_iff.mpr (haveMeans_of_configured hmode hencrypted hsuites)
  obtain ⟨r, hr⟩ := Option.isSome_iff_exists.mp hagree
  exact ⟨r, negotiate_of_agreeOn_wanted hr, agreeOn_mode hr⟩

/-- Neither the suites nor the ciphers that are configured can be read, and
one side insists on encryption. -/
theorem configured_parties_agree_on_nonsense :
    let here : Media :=
      { encryption := .srtp, encryptionMandatory := true, srtpSuites? := some "AES, ," }
    let there : Media :=
      { encryption := .srtp, acceptAnyEncryption := true, srtpSuites? := some "AES, ,"
        zrtp := { ciphers? := some "AES" } }
    ∃ r, negotiate here.policy there.policy.advertised .peer = .ok r ∧ r.mode = .srtp :=
  configured_parties_agree _ _ .peer rfl rfl fun _ => rfl

end Switchboard.Encryption
