import Switchboard.Proofs.Ranked
import Switchboard.Zrtp.Selection

/-!
# What is chosen of ZRTP preferences

Algorithms can be chosen exactly when the two sides have one in common in
every category, and what is chosen both sides hold, lifted or not.
-/

namespace Switchboard.Zrtp

open Ranked

variable {p q : Preferences} {a : Algorithms}

/-- In every category some algorithm is in both preferences. -/
structure Preferences.Meet (p q : Preferences) : Prop where
  cipher : ∃ a ∈ p.ciphers, a ∈ q.ciphers
  hash : ∃ a ∈ p.hashes, a ∈ q.hashes
  authTag : ∃ a ∈ p.authTags, a ∈ q.authTags
  keyAgreement : ∃ a ∈ p.keyAgreements, a ∈ q.keyAgreements
  sas : ∃ a ∈ p.sas, a ∈ q.sas

/-- Each of the algorithms is one of the preferences. -/
structure Algorithms.Within (a : Algorithms) (p : Preferences) : Prop where
  cipher : a.cipher ∈ p.ciphers
  hash : a.hash ∈ p.hashes
  authTag : a.authTag ∈ p.authTags
  keyAgreement : a.keyAgreement ∈ p.keyAgreements
  sas : a.sas ∈ p.sas

theorem Preferences.Meet.symm (h : p.Meet q) : q.Meet p where
  cipher := h.cipher.imp fun _ => And.symm
  hash := h.hash.imp fun _ => And.symm
  authTag := h.authTag.imp fun _ => And.symm
  keyAgreement := h.keyAgreement.imp fun _ => And.symm
  sas := h.sas.imp fun _ => And.symm

/-! ## The lift -/

/-- What is used of a category, given what the order alone would choose: some
key agreements ask for the strongest. -/
def lifted {α : Type} [DecidableEq α] (k : KeyAgreement) (ranking offered held : List α)
    (a : α) : α :=
  if k.needsStrong then lift ranking offered held a else a

theorem mem_lift {α : Type} [DecidableEq α] {ranking offered held : List α} {fallback : α}
    (hoffered : fallback ∈ offered) (hheld : fallback ∈ held) :
    lift ranking offered held fallback ∈ offered ∧
      lift ranking offered held fallback ∈ held := by
  unfold lift
  cases h : ranking.find? fun a => a ∈ offered ∧ a ∈ held with
  | none => exact ⟨hoffered, hheld⟩
  | some strong => simpa using List.find?_some h

theorem lifted_mem {α : Type} [DecidableEq α] {k : KeyAgreement} {ranking offered held : List α}
    {a : α} (h : Leads offered held a) :
    lifted k ranking offered held a ∈ offered ∧ lifted k ranking offered held a ∈ held := by
  unfold lifted
  split
  · exact mem_lift h.mem_offered h.mem_held
  · exact ⟨h.mem_offered, h.mem_held⟩

/-! ## The choice -/

/-- The choice, category by category; hash and cipher may be lifted. -/
theorem select_eq (p q : Preferences) :
    select p q =
      (firstCommon p.keyAgreements q.keyAgreements).bind fun keyAgreement =>
      (firstCommon p.ciphers q.ciphers).bind fun cipher =>
      (firstCommon p.hashes q.hashes).bind fun hash =>
      (firstCommon p.authTags q.authTags).bind fun authTag =>
      (firstCommon p.sas q.sas).bind fun sas =>
        some {
          cipher := lifted keyAgreement Cipher.ranking p.ciphers q.ciphers cipher
          hash := lifted keyAgreement Hash.ranking p.hashes q.hashes hash
          authTag
          keyAgreement
          sas } := by
  unfold select lifted
  simp only [bind, pure]
  congr 1
  funext keyAgreement
  -- the choice tests for a strong key agreement once, the lift once a category
  split <;> rfl

theorem select_eq_some_iff :
    select p q = some a ↔ ∃ cipher hash,
      Leads p.keyAgreements q.keyAgreements a.keyAgreement ∧
      Leads p.ciphers q.ciphers cipher ∧ Leads p.hashes q.hashes hash ∧
      Leads p.authTags q.authTags a.authTag ∧ Leads p.sas q.sas a.sas ∧
      a.cipher = lifted a.keyAgreement Cipher.ranking p.ciphers q.ciphers cipher ∧
      a.hash = lifted a.keyAgreement Hash.ranking p.hashes q.hashes hash := by
  rw [select_eq]
  simp only [Option.bind_eq_some_iff, firstCommon_eq_some_iff, Option.some.injEq]
  constructor
  · rintro ⟨keyAgreement, hk, cipher, hc, hash, hh, authTag, ht, sas, hs, rfl⟩
    exact ⟨cipher, hash, hk, hc, hh, ht, hs, rfl, rfl⟩
  · rintro ⟨cipher, hash, hk, hc, hh, ht, hs, hcipher, hhash⟩
    refine ⟨_, hk, cipher, hc, hash, hh, _, ht, _, hs, ?_⟩
    rw [← hcipher, ← hhash]

theorem select_isSome_iff : (select p q).isSome ↔ p.Meet q := by
  rw [Option.isSome_iff_exists]
  constructor
  · rintro ⟨a, ha⟩
    obtain ⟨cipher, hash, hk, hc, hh, ht, hs, -, -⟩ := select_eq_some_iff.mp ha
    exact {
      cipher := ⟨cipher, hc.mem_offered, hc.mem_held⟩
      hash := ⟨hash, hh.mem_offered, hh.mem_held⟩
      authTag := ⟨a.authTag, ht.mem_offered, ht.mem_held⟩
      keyAgreement := ⟨a.keyAgreement, hk.mem_offered, hk.mem_held⟩
      sas := ⟨a.sas, hs.mem_offered, hs.mem_held⟩ }
  · intro h
    obtain ⟨keyAgreement, hk⟩ := Option.isSome_iff_exists.mp
      (firstCommon_isSome_iff.mpr h.keyAgreement)
    obtain ⟨cipher, hc⟩ := Option.isSome_iff_exists.mp (firstCommon_isSome_iff.mpr h.cipher)
    obtain ⟨hash, hh⟩ := Option.isSome_iff_exists.mp (firstCommon_isSome_iff.mpr h.hash)
    obtain ⟨authTag, ht⟩ := Option.isSome_iff_exists.mp (firstCommon_isSome_iff.mpr h.authTag)
    obtain ⟨sas, hs⟩ := Option.isSome_iff_exists.mp (firstCommon_isSome_iff.mpr h.sas)
    rw [select_eq, hk, hc, hh, ht, hs]
    exact ⟨_, rfl⟩

/-- Both sides hold all that is chosen. -/
theorem select_within (h : select p q = some a) : a.Within p ∧ a.Within q := by
  obtain ⟨cipher, hash, hk, hc, hh, ht, hs, hcipher, hhash⟩ := select_eq_some_iff.mp h
  have hciphers : a.cipher ∈ p.ciphers ∧ a.cipher ∈ q.ciphers := by
    rw [hcipher]
    exact lifted_mem hc
  have hhashes : a.hash ∈ p.hashes ∧ a.hash ∈ q.hashes := by
    rw [hhash]
    exact lifted_mem hh
  exact ⟨⟨hciphers.1, hhashes.1, ht.mem_offered, hk.mem_offered, hs.mem_offered⟩,
    ⟨hciphers.2, hhashes.2, ht.mem_held, hk.mem_held, hs.mem_held⟩⟩

end Switchboard.Zrtp
