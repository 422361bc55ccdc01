import Switchboard.Proofs.Encryption.Configured

/-!
# Whose order counts

Two parties always find an algorithm of each category, as both hold what every
party must hold. It is the offerer's first one that the answerer holds too; but
where the key agreement calls for strong primitives, hash and cipher are the
first ones of a fixed ranking that both sides hold, in whatever order.
-/

namespace Switchboard.Zrtp

open Ranked

variable {p q : Preferences} {a : Algorithms}

/-! ## Lifted categories -/

/-- Key agreements that call for strong primitives are the post-quantum ones
and three over large curves. -/
theorem KeyAgreement.needsStrong_iff {k : KeyAgreement} :
    k.needsStrong = true ↔ k.isPostQuantum = true ∨ k ∈ [x448, k448, ec52] := by
  simp [needsStrong, or_assoc]

section

variable {α : Type} [DecidableEq α] {ranking offered held : List α} {fallback : α}

/-- A lift takes the first entry of the ranking that both sides hold. -/
theorem leads_lift (h : ∃ a ∈ ranking, a ∈ offered ∧ a ∈ held) :
    Leads ranking (common offered held) (lift ranking offered held fallback) := by
  have hfind : (ranking.find? fun a => a ∈ offered ∧ a ∈ held) =
      firstCommon ranking (common offered held) := by
    unfold firstCommon
    congr 1
    funext a
    rw [decide_eq_decide, mem_common]
  have hexists : ∃ a, Leads ranking (common offered held) a := exists_leads (by simpa using h)
  obtain ⟨a, ha⟩ := hexists
  unfold lift
  rw [hfind, firstCommon_eq_some_iff.mpr ha]
  exact ha

end

/-- Complete preferences share a cipher and a hash of the rankings. -/
theorem Preferences.Complete.ranked (hp : p.Complete) (hq : q.Complete) :
    (∃ c ∈ Cipher.ranking, c ∈ p.ciphers ∧ c ∈ q.ciphers) ∧
      ∃ d ∈ Hash.ranking, d ∈ p.hashes ∧ d ∈ q.hashes :=
  ⟨⟨.aes1, by decide, hp.cipher, hq.cipher⟩, ⟨.s256, by decide, hp.hash, hq.hash⟩⟩

theorem leads_of_needsStrong (hp : p.Complete) (hq : q.Complete) (h : select p q = some a)
    (hstrong : a.keyAgreement.needsStrong = true) :
    Leads Hash.ranking (common p.hashes q.hashes) a.hash ∧
      Leads Cipher.ranking (common p.ciphers q.ciphers) a.cipher := by
  obtain ⟨cipher, hash, -, -, -, -, -, hcipher, hhash⟩ := select_eq_some_iff.mp h
  obtain ⟨hciphers, hhashes⟩ := hp.ranked hq
  rw [hcipher, hhash, lifted, lifted, if_pos hstrong, if_pos hstrong]
  exact ⟨leads_lift hhashes, leads_lift hciphers⟩

theorem leads_of_not_needsStrong (h : select p q = some a)
    (hplain : ¬a.keyAgreement.needsStrong = true) :
    Leads p.hashes q.hashes a.hash ∧ Leads p.ciphers q.ciphers a.cipher := by
  obtain ⟨cipher, hash, -, hc, hh, -, -, hcipher, hhash⟩ := select_eq_some_iff.mp h
  rw [hcipher, hhash, lifted, lifted, if_neg hplain, if_neg hplain]
  exact ⟨hh, hc⟩

/-! ## The choice -/

/-- **The choice follows the offerer.** However two parties have come by their
preferences, an algorithm of each category is chosen that both hold. In key
agreement, tag and rendering it is the offerer's first one that the answerer
holds. So it is for hash and cipher, unless the key agreement is post-quantum
or one of three over large curves: then these are the first of their rankings
that both sides hold. -/
theorem choice_follows_offerer (hp : p.Built) (hq : q.Built) :
    ∃ a, select p q = some a ∧ a.Within p ∧ a.Within q ∧
      Leads p.keyAgreements q.keyAgreements a.keyAgreement ∧
      Leads p.authTags q.authTags a.authTag ∧ Leads p.sas q.sas a.sas ∧
      let strong := a.keyAgreement.isPostQuantum = true ∨ a.keyAgreement ∈ [.x448, .k448, .ec52]
      (strong → Leads [.s512, .s384, .s256] (common p.hashes q.hashes) a.hash ∧
        Leads [.aes3, .aes2, .aes1] (common p.ciphers q.ciphers) a.cipher) ∧
      (¬strong → Leads p.hashes q.hashes a.hash ∧ Leads p.ciphers q.ciphers a.cipher) := by
  obtain ⟨a, ha⟩ := Option.isSome_iff_exists.mp
    (select_isSome_iff.mpr (hp.complete.meet hq.complete))
  obtain ⟨hwithin, hwithin'⟩ := select_within ha
  obtain ⟨-, -, hk, -, -, ht, hs, -, -⟩ := select_eq_some_iff.mp ha
  refine ⟨a, ha, hwithin, hwithin', hk, ht, hs, ?_, ?_⟩
  · intro hstrong
    exact leads_of_needsStrong hp.complete hq.complete ha
      (KeyAgreement.needsStrong_iff.mpr hstrong)
  · intro hplain
    exact leads_of_not_needsStrong ha (mt KeyAgreement.needsStrong_iff.mp hplain)

/-- The offer is read from settings and asks for a cipher and a hash outside the
rankings first; it is answered over the large curve that it wants. -/
theorem choice_follows_offerer_over_large_curve :
    let offered : Settings.ZrtpLists :=
      { ciphers? := some "2FS3, AES2", hashes? := some "n384,nothing"
        authTags? := some "SK64,HS32", keyAgreements? := some "X448,DH2K" }
    let p := offered.preferences
    let q := Preferences.ofLists [.aes1, .aes2, .twofish3] [.s384, .n384] [.hs32, .sk64]
      [.dh2k, .x448] []
    ∃ a, select p q = some a ∧
      a = { cipher := .aes2, hash := .s256, authTag := .sk64, keyAgreement := .x448, sas := .b32 } ∧
      Leads p.authTags q.authTags a.authTag ∧
      Leads [.s512, .s384, .s256] (common p.hashes q.hashes) a.hash ∧
      Leads [.aes3, .aes2, .aes1] (common p.ciphers q.ciphers) a.cipher := by
  intro offered p q
  have hvalue : select p q = some {
      cipher := .aes2, hash := .s256, authTag := .sk64, keyAgreement := .x448, sas := .b32 } := by
    decide +kernel
  have hp : p.Built := .configured offered
  have hq : q.Built := .ofLists [.aes1, .aes2, .twofish3] [.s384, .n384] [.hs32, .sk64]
    [.dh2k, .x448] []
  obtain ⟨a, ha, -, -, -, htag, -, hstrong, -⟩ := choice_follows_offerer hp hq
  obtain rfl := Option.some.inj (hvalue.symm.trans ha)
  obtain ⟨hhash, hcipher⟩ := hstrong (.inr (by decide))
  exact ⟨_, hvalue, rfl, htag, hhash, hcipher⟩

end Switchboard.Zrtp
