import Switchboard.Call.Parameters
import Switchboard.Proofs.Encryption.Outcome
import Switchboard.Proofs.Sdp.Section

/-!
# The profile of an answer

A media section with a secure profile insists on encryption, so whatever comes
of it is encrypted. The answer then has a secure profile as well, unless the
call is keyed by ZRTP: that is done on the media path, behind a plain profile,
and takes a section that announces it.
-/

namespace Switchboard

namespace Encryption

variable {policy : Policy} {peer : Capabilities} {offerer : Offerer} {r : Agreement}

/-- Nobody who insists on encryption gets a call in the clear. -/
theorem encrypted_of_mandatory (hpeer : peer.mandatory = true)
    (h : negotiate policy peer offerer = .ok r) : r.isEncrypted = true := by
  rw [Agreement.isEncrypted_iff]
  rintro rfl
  obtain ⟨-, -, hfalse⟩ := negotiate_eq_plain_iff.mp h
  rw [hpeer] at hfalse
  exact Bool.noConfusion hfalse

/-- An agreement on ZRTP is one that the peer has announced. -/
theorem zrtp_announced (h : negotiate policy peer offerer = .ok r) (hr : r.mode = .zrtp) :
    peer.zrtp?.isSome := by
  have hencrypted : r.isEncrypted = true := by
    unfold Agreement.isEncrypted
    rw [hr]
    rfl
  obtain ⟨hfirst, -⟩ := firstUsable_of_negotiate h hencrypted
  have hmeans := hfirst.1.means
  rw [hr] at hmeans
  obtain ⟨theirs, htheirs, -⟩ := hmeans
  rw [htheirs]
  rfl

end Encryption

namespace Sdp

theorem Profile.isSecure_ofMode (mode : Encryption.Mode) (feedback : Bool) :
    (ofMode mode feedback).isSecure = true ↔ mode.isEncrypted = true ∧ mode ≠ .zrtp := by
  cases mode <;> cases feedback <;> simp [ofMode, isSecure, Encryption.Mode.isEncrypted]

theorem Section.announcesZrtp_of_capabilities {s : Section} (h : s.capabilities.zrtp?.isSome) :
    ∃ line ∈ s.lines, (Attribute.read line.toList).announcesZrtp = true := by
  unfold Section.capabilities at h
  split at h
  · rename_i hany
    obtain ⟨a, ha, hannounces⟩ := List.any_eq_true.mp hany
    obtain ⟨line, hline, rfl⟩ := List.mem_map.mp ha
    exact ⟨line, hline, hannounces⟩
  · exact absurd h (by simp)

end Sdp

namespace Call

open Encryption Sdp

theorem Parameters.profile_commit (p : Parameters) (agreement : Agreement) :
    (p.commit agreement).profile = .ofMode agreement.mode p.feedback.enabled := rfl

/-- **A secure offer is answered by encryption.** What is agreed on with a media
section of a secure profile is encrypted, whatever its lines say, and once it
is taken over the parameters have a secure profile exactly if it is not ZRTP.
ZRTP hides behind a plain profile, and is agreed on only if some line of the
section announces it. -/
theorem secure_offer_answered {text : String} {lines : List String} {profile : Profile}
    {policy : Policy} {peer : Capabilities} {offerer : Offerer} {agreement : Agreement}
    (hprofile : Profile.parse text = .ok profile) (hsecure : profile.isSecure = true)
    (hpeer : capabilitiesOf text lines = .ok peer)
    (h : negotiate policy peer offerer = .ok agreement) (p : Parameters) :
    agreement.isEncrypted = true ∧
      ((p.commit agreement).profile.isSecure = true ↔ agreement.mode ≠ .zrtp) ∧
      (agreement.mode = .zrtp →
        (p.commit agreement).profile = (if p.feedback.enabled then .avpf else .avp) ∧
          ∃ line ∈ lines, (Attribute.read line.toList).announcesZrtp = true) := by
  rw [capabilitiesOf_of_parse hprofile, Except.ok.injEq] at hpeer
  subst hpeer
  -- the profile alone makes the peer insist, whatever the lines offer
  have hmandatory : (Section.capabilities { profile, lines }).mandatory = true := hsecure
  have hencrypted := encrypted_of_mandatory hmandatory h
  refine ⟨hencrypted, ?_, ?_⟩
  · rw [p.profile_commit, Profile.isSecure_ofMode]
    exact and_iff_right hencrypted
  · intro hzrtp
    refine ⟨?_, Section.announcesZrtp_of_capabilities (zrtp_announced h hzrtp)⟩
    rw [p.profile_commit, hzrtp]
    cases p.feedback.enabled <;> rfl

/-- A section offers two suites, one of which is held here, and ZRTP. -/
theorem secure_offer_answered_by_suite :
    let lines := ["a=rtpmap:0 PCMU/8000", "a=crypto:1 AEAD_AES_256_GCM inline:abc",
      "a=crypto:2 AES_CM_128_HMAC_SHA1_80 inline:abc", "a=zrtp-hash:1.10 fe30efd0"]
    let peer : Capabilities :=
      { suites := [{ cipher := .aesGcm256 }, { cipher := .aesCm128Sha80 }]
        zrtp? := some .defaults, mandatory := true }
    let p : Parameters := { feedback := { enabled := true } }
    let agreement : Agreement := .srtp { cipher := .aesCm128Sha80 }
    Profile.parse "RTP/SAVPF" = .ok .savpf ∧ capabilitiesOf "RTP/SAVPF" lines = .ok peer ∧
      negotiate { mode := .srtp } peer .peer = .ok agreement ∧
      (p.commit agreement).profile.isSecure = true := by
  intro lines peer p agreement
  have hprofile : Profile.parse "RTP/SAVPF" = .ok .savpf := by decide +kernel
  have hpeer : capabilitiesOf "RTP/SAVPF" lines = .ok peer := by decide +kernel
  have hagreed : negotiate { mode := .srtp } peer .peer = .ok agreement := by decide +kernel
  obtain ⟨-, hanswer, -⟩ := secure_offer_answered hprofile rfl hpeer hagreed p
  exact ⟨hprofile, hpeer, hagreed, hanswer.mpr (by decide)⟩

/-- The profile of the answer can be plain: a section that announces ZRTP meets
a party that wants it. -/
theorem secure_offer_answered_plainly :
    ¬∀ (text : String) (lines : List String) (profile : Profile) (policy : Policy)
        (peer : Capabilities) (agreement : Agreement) (p : Parameters),
      Profile.parse text = .ok profile → profile.isSecure = true →
        capabilitiesOf text lines = .ok peer → negotiate policy peer .peer = .ok agreement →
          (p.commit agreement).profile.isSecure = true := by
  intro hall
  let peer : Capabilities := { zrtp? := some .defaults, mandatory := true }
  let algorithms : Zrtp.Algorithms :=
    { cipher := .aes1, hash := .s256, authTag := .hs80, keyAgreement := .dh3k, sas := .b32 }
  have hprofile : Profile.parse "RTP/SAVP" = .ok .savp := by decide +kernel
  have hpeer : capabilitiesOf "RTP/SAVP" ["a=zrtp-hash:1.10 fe30efd0"] = .ok peer := by
    decide +kernel
  have hagreed : negotiate { mode := .zrtp } peer .peer = .ok (.zrtp algorithms) := by
    decide +kernel
  have hanswer := hall _ _ _ _ _ _ {} hprofile rfl hpeer hagreed
  exact Bool.noConfusion hanswer

end Call

end Switchboard
