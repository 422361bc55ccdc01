import Switchboard.Proofs.Encryption.Outcome

/-!
# Following the peer

A party that wants no encryption of its own still goes along with a peer that
insists on some, as long as it has means for a mode of the peer. It has to be
willing: a party that insists on encryption without naming a mode, and without
taking any, goes along with nobody, and its calls with such a peer are refused.
-/

namespace Switchboard.Encryption

variable {policy : Policy} {peer : Capabilities} {offerer : Offerer} {m : Mode}

/-- Without a wanted mode only those of the peer are left. -/
theorem usable_iff_of_plain (h : policy.mode = .plain) :
    Usable policy peer m ↔
      policy.followsPeer peer = true ∧ peer.offers m = true ∧ HaveMeans policy peer m := by
  rw [followsPeer_iff]
  constructor
  · rintro ⟨hencrypted, hmeans, hwanted | ⟨hfollows, hoffers⟩⟩
    · rw [hwanted, h] at hencrypted
      exact Bool.noConfusion hencrypted
    · exact ⟨hfollows, hoffers, hmeans⟩
  · rintro ⟨hfollows, hoffers, hmeans⟩
    exact ⟨hmeans.isEncrypted, hmeans, .inr ⟨hfollows, hoffers⟩⟩

/-- A party without a wanted mode is willing to follow a peer that insists
when it takes any encryption or does not insist on one itself. -/
theorem followsPeer_iff_of_mandatory (h : peer.mandatory = true) :
    policy.followsPeer peer = true ↔ policy.acceptAny = true ∨ policy.mandatory = false := by
  simp [followsPeer_iff, h]

/-- **A peer that insists is followed.** A party that wants no encryption comes
to an encrypted call with a peer that insists on one exactly when it takes any
encryption or does not insist itself, and has means for some mode that the
peer offers. -/
theorem insisting_peer_followed_iff (policy : Policy) (peer : Capabilities) (offerer : Offerer)
    (hplain : policy.mode = .plain) (hpeer : peer.mandatory = true) :
    (∃ r, negotiate policy peer offerer = .ok r ∧ r.isEncrypted = true) ↔
      (policy.acceptAny = true ∨ policy.mandatory = false) ∧
        ∃ m, peer.offers m = true ∧ HaveMeans policy peer m := by
  rw [negotiate_encrypted_iff, ← followsPeer_iff_of_mandatory hpeer]
  constructor
  · rintro ⟨m, husable⟩
    obtain ⟨hfollows, hoffers, hmeans⟩ := (usable_iff_of_plain hplain).mp husable
    exact ⟨hfollows, m, hoffers, hmeans⟩
  · rintro ⟨hfollows, m, hoffers, hmeans⟩
    exact ⟨m, (usable_iff_of_plain hplain).mpr ⟨hfollows, hoffers, hmeans⟩⟩

theorem insisting_peer_followed_over_dtls :
    let policy : Policy := { mode := .plain }
    let peer : Capabilities := { dtls := true, mandatory := true }
    ∃ r, negotiate policy peer .peer = .ok r ∧ r.isEncrypted = true := by
  intro policy peer
  have hmeans : HaveMeans policy peer .dtls := ⟨rfl, rfl⟩
  exact (insisting_peer_followed_iff policy peer .peer rfl rfl).mpr
    ⟨.inr rfl, .dtls, rfl, hmeans⟩

/-- Means for a mode of the peer are not enough: a party that insists on
encryption, but wants no mode, refuses a peer that insists on DTLS. -/
theorem insisting_peer_not_always_followed :
    ¬ ∀ (policy : Policy) (peer : Capabilities) (offerer : Offerer),
      policy.mode = .plain → peer.mandatory = true →
        (∃ m, peer.offers m = true ∧ HaveMeans policy peer m) →
          ∃ r, negotiate policy peer offerer = .ok r ∧ r.isEncrypted = true := by
  intro hall
  let policy : Policy := { mode := .plain, mandatory := true }
  let peer : Capabilities := { dtls := true, mandatory := true }
  have hmeans : HaveMeans policy peer .dtls := ⟨rfl, rfl⟩
  have hrefused : negotiate policy peer .peer = .error .noCommonEncryption := by decide
  obtain ⟨r, hr, -⟩ := hall policy peer .peer rfl rfl ⟨.dtls, rfl, hmeans⟩
  rw [hrefused] at hr
  exact absurd hr (by simp)

end Switchboard.Encryption
