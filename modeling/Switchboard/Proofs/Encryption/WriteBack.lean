import Switchboard.Proofs.Encryption.Configured
import Switchboard.Proofs.Srtp.Suite
import Switchboard.Proofs.Zrtp.Names
import Switchboard.Proofs.Zrtp.NormalForm

/-!
# Writing a catalog back

What settings say about suites and algorithms is read with defaults and
mandatory algorithms filled in and what cannot be read left out. Written back
into the settings, with algorithms under either of their names, a catalog is
read again as it was.
-/

namespace Switchboard.Encryption

open Settings (Media ZrtpLists)

/-! ## What makes a catalog -/

theorem suites_of_text {m : Media} {text : String} (h : m.srtpSuites? = some text) :
    m.catalog.suites = Srtp.Suite.parseLenient text := by
  unfold Settings.Media.catalog
  rw [h, Option.map_some, Option.getD_some]

theorem suites_nodup (m : Media) : m.catalog.suites.Nodup := by
  cases h : m.srtpSuites? with
  | none =>
      have hdefaults : m.catalog.suites = Srtp.Suite.defaults := by
        unfold Settings.Media.catalog
        rw [h, Option.map_none, Option.getD_none]
      rw [hdefaults]
      decide
  | some text =>
      rw [suites_of_text h]
      unfold Srtp.Suite.parseLenient Srtp.Suite.readLenient Srtp.Suite.orDefaults
      split
      · decide
      · exact Ranked.nodup_ofList _

theorem catalog_ext {m m' : Media} (hsuites : m'.catalog.suites = m.catalog.suites)
    (hzrtp : m'.zrtp.preferences = m.zrtp.preferences) : m'.catalog = m.catalog :=
  calc
    m'.catalog = { suites := m'.catalog.suites, zrtp := m'.zrtp.preferences } := rfl
    _ = { suites := m.catalog.suites, zrtp := m.zrtp.preferences } := by rw [hsuites, hzrtp]
    _ = m.catalog := rfl

theorem preferences_ofLists_self (z : ZrtpLists) :
    let p := z.preferences
    Zrtp.Preferences.ofLists p.ciphers p.hashes p.authTags p.keyAgreements p.sas = p := by
  intro p
  have hcomplete : p.Complete := Zrtp.Preferences.complete_ofLists _ _ _ _ _
  exact hcomplete.ofLists_self (Zrtp.Preferences.distinct_ofLists _ _ _ _ _)

/-- **A catalog written back is read as it was.** The suites are written as a
list, and the algorithms of each category as names with commas between them,
short or full, in any letter case and with any blanks around them. -/
theorem catalog_written_back (m : Media) (ciphers hashes authTags keyAgreements sas : String)
    (hciphers : Zrtp.Lists m.catalog.zrtp.ciphers ciphers)
    (hhashes : Zrtp.Lists m.catalog.zrtp.hashes hashes)
    (hauthTags : Zrtp.Lists m.catalog.zrtp.authTags authTags)
    (hkeyAgreements : Zrtp.Lists m.catalog.zrtp.keyAgreements keyAgreements)
    (hsas : Zrtp.Lists m.catalog.zrtp.sas sas) :
    let written : Media := { m with
      srtpSuites? := some (Srtp.Suite.listText m.catalog.suites)
      zrtp := {
        ciphers? := some ciphers
        hashes? := some hashes
        authTags? := some authTags
        keyAgreements? := some keyAgreements
        sas? := some sas } }
    written.catalog = m.catalog ∧ written.policy = m.policy := by
  intro written
  have hsuites : written.catalog.suites = m.catalog.suites := by
    rw [suites_of_text rfl]
    exact Srtp.Suite.parseLenient_listText (suites_nodup m) (suites_ne_nil m)
  have hzrtp : written.zrtp.preferences = m.zrtp.preferences := by
    unfold Settings.ZrtpLists.preferences
    rw [hciphers.parseList, hhashes.parseList, hauthTags.parseList, hkeyAgreements.parseList,
      hsas.parseList]
    exact preferences_ofLists_self m.zrtp
  have hcatalog := catalog_ext hsuites hzrtp
  refine ⟨hcatalog, ?_⟩
  unfold Settings.Media.policy
  rw [hcatalog]

/-- Most of what is configured cannot be read, and the rest brings algorithms
with it that every party must hold. -/
theorem catalog_written_back_of_nonsense :
    let m : Media := {
      encryption := .zrtp
      srtpSuites? := some "AES, aead_aes_128_gcm unencrypted_srtcp UNENCRYPTED_SRTP,"
      zrtp := {
        ciphers? := some "MS_ZRTP_HASH_S256, 2fs3"
        keyAgreements? := some "K255_KYB512,nothing" } }
    let written : Media := { m with
      srtpSuites? := some "AEAD_AES_128_GCM UNENCRYPTED_SRTP UNENCRYPTED_SRTCP"
      zrtp := {
        ciphers? := some "2FS3,MS_ZRTP_CIPHER_AES1,AES3"
        hashes? := some "S256,S512"
        authTags? := some "HS80,MS_ZRTP_AUTHTAG_HS32"
        keyAgreements? := some "MS_ZRTP_KEY_AGREEMENT_K255_KYB512,DH3K"
        sas? := some "B32" } }
    written.catalog = m.catalog ∧ written.policy = m.policy := by
  intro m written
  have hsuites : Srtp.Suite.listText m.catalog.suites =
      "AEAD_AES_128_GCM UNENCRYPTED_SRTP UNENCRYPTED_SRTCP" := by decide +kernel
  have h := catalog_written_back m "2FS3,MS_ZRTP_CIPHER_AES1,AES3" "S256,S512"
    "HS80,MS_ZRTP_AUTHTAG_HS32" "MS_ZRTP_KEY_AGREEMENT_K255_KYB512,DH3K" "B32"
    ⟨["2FS3".toList, "MS_ZRTP_CIPHER_AES1".toList, "AES3".toList], by decide +kernel,
      by decide +kernel⟩
    ⟨["S256".toList, "S512".toList], by decide +kernel, by decide +kernel⟩
    ⟨["HS80".toList, "MS_ZRTP_AUTHTAG_HS32".toList], by decide +kernel, by decide +kernel⟩
    ⟨["MS_ZRTP_KEY_AGREEMENT_K255_KYB512".toList, "DH3K".toList], by decide +kernel,
      by decide +kernel⟩
    ⟨["B32".toList], by decide +kernel, by decide +kernel⟩
  rw [hsuites] at h
  exact h

end Switchboard.Encryption
