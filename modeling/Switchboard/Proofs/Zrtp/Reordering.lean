import Switchboard.Proofs.Zrtp.Preferences

/-!
# Preferences in another order

The answerer's lists count by their members alone, also where hash and cipher
are lifted to the strongest ones. Preferences made anew of lists with the same
members have the same members again: all that is completed was there.
-/

namespace Switchboard.Zrtp

open Ranked

namespace Preferences

/-- Each category has the same algorithms, in whatever order. -/
structure Alike (p q : Preferences) : Prop where
  ciphers : SameMembers p.ciphers q.ciphers
  hashes : SameMembers p.hashes q.hashes
  authTags : SameMembers p.authTags q.authTags
  keyAgreements : SameMembers p.keyAgreements q.keyAgreements
  sas : SameMembers p.sas q.sas

/-! ## The choice -/

variable {p q q' : Preferences}

theorem lifted_congr {α : Type} [DecidableEq α] {ranking offered held held' : List α}
    (h : SameMembers held held') (k : KeyAgreement) (a : α) :
    lifted k ranking offered held a = lifted k ranking offered held' a := by
  have hranked : (fun a => decide (a ∈ offered ∧ a ∈ held)) =
      fun a => decide (a ∈ offered ∧ a ∈ held') := by
    funext a
    rw [decide_eq_decide, h a]
  unfold lifted lift
  rw [hranked]

/-- The answerer's order makes no difference. -/
theorem select_congr (h : q.Alike q') : select p q = select p q' := by
  rw [select_eq, select_eq, firstCommon_congr h.ciphers, firstCommon_congr h.hashes,
    firstCommon_congr h.authTags, firstCommon_congr h.keyAgreements, firstCommon_congr h.sas]
  simp only [lifted_congr h.ciphers, lifted_congr h.hashes]

/-! ## Lists made anew -/

section

variable {α : Type} [DecidableEq α] {xs ys defaults : List α} {strongest : α}
  {keyAgreements : List KeyAgreement}

theorem sameMembers_orDefaults (h : SameMembers xs ys) (hdefaults : ∀ a ∈ defaults, a ∈ ys) :
    SameMembers (orDefaults xs defaults) ys := by
  intro a
  unfold orDefaults
  split
  · rename_i hempty
    have hnone : a ∉ xs := by
      rw [← mem_ofList, hempty]
      exact List.not_mem_nil
    exact ⟨hdefaults a, fun ha => absurd ((h a).mpr ha) hnone⟩
  · rw [mem_ofList]
    exact h a

theorem sameMembers_raise (h : SameMembers xs ys)
    (hstrongest : (∃ k ∈ keyAgreements, k.isPostQuantum = true) → strongest ∈ ys) :
    SameMembers (raise keyAgreements strongest xs) ys := by
  intro a
  rw [mem_raise, h a]
  constructor
  · rintro (ha | ⟨rfl, hquantum⟩)
    · exact ha
    · exact hstrongest hquantum
  · exact Or.inl

end

/-- Complete preferences have the members of the lists they are made anew of. -/
theorem Complete.alike_ofLists (hp : p.Complete) {ciphers : List Cipher} {hashes : List Hash}
    {authTags : List AuthTag} {keyAgreements : List KeyAgreement} {sas : List Sas}
    (hciphers : SameMembers ciphers p.ciphers) (hhashes : SameMembers hashes p.hashes)
    (hauthTags : SameMembers authTags p.authTags)
    (hkeyAgreements : SameMembers keyAgreements p.keyAgreements)
    (hsas : SameMembers sas p.sas) :
    Alike (ofLists ciphers hashes authTags keyAgreements sas) p := by
  have hkeys : SameMembers (add (orDefaults keyAgreements [.dh3k]) .dh3k) p.keyAgreements :=
    (sameMembers_orDefaults hkeyAgreements (by simpa using hp.keyAgreement)).add_of_mem
      hp.keyAgreement
  have hquantum : (∃ k ∈ add (orDefaults keyAgreements [.dh3k]) .dh3k, k.isPostQuantum = true) →
      ∃ k ∈ p.keyAgreements, k.isPostQuantum = true :=
    fun h => h.imp fun k => And.imp_left (hkeys k).mp
  rw [ofLists_eq]
  exact {
    ciphers := sameMembers_raise
      ((sameMembers_orDefaults hciphers (by simpa using hp.cipher)).add_of_mem hp.cipher)
      fun h => hp.strongCipher (hquantum h)
    hashes := sameMembers_raise
      ((sameMembers_orDefaults hhashes (by simpa using hp.hash)).add_of_mem hp.hash)
      fun h => hp.strongHash (hquantum h)
    authTags := ((sameMembers_orDefaults hauthTags
      (by simpa using ⟨hp.longTag, hp.shortTag⟩)).add_of_mem hp.shortTag).add_of_mem hp.longTag
    keyAgreements := hkeys
    sas := (sameMembers_orDefaults hsas (by simpa using hp.sas)).add_of_mem hp.sas }

end Preferences

end Switchboard.Zrtp
