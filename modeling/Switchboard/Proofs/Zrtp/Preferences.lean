import Switchboard.Proofs.Zrtp.Selection

/-!
# What preferences always hold

Preferences made of any lists hold the algorithms that every party must hold,
and next to a post-quantum key agreement the longest hash and the cipher with
the longest key. So two parties always meet, and once both hold the strongest
hash and cipher a post-quantum key agreement is never joined with weaker ones.
-/

namespace Switchboard.Zrtp

open Ranked

namespace Preferences

/-! ## Lists of preferences -/

/-- A list next to these key agreements: a post-quantum one adds an entry. -/
def raise {α : Type} [DecidableEq α] (keyAgreements : List KeyAgreement) (strongest : α)
    (xs : List α) : List α :=
  if keyAgreements.any KeyAgreement.isPostQuantum then add xs strongest else xs

theorem mem_raise {α : Type} [DecidableEq α] {keyAgreements : List KeyAgreement}
    {strongest a : α} {xs : List α} :
    a ∈ raise keyAgreements strongest xs ↔
      a ∈ xs ∨ (a = strongest ∧ ∃ k ∈ keyAgreements, k.isPostQuantum = true) := by
  unfold raise
  rw [← List.any_eq_true]
  split
  · rename_i hany
    rw [mem_add]
    simp [hany]
  · rename_i hnone
    simp [hnone]

/-- The lists one by one; key agreements may raise those of hashes and
ciphers. -/
theorem ofLists_eq (ciphers : List Cipher) (hashes : List Hash) (authTags : List AuthTag)
    (keyAgreements : List KeyAgreement) (sas : List Sas) :
    ofLists ciphers hashes authTags keyAgreements sas =
      let keyAgreements := add (orDefaults keyAgreements [.dh3k]) .dh3k
      { ciphers := raise keyAgreements .aes3 (add (orDefaults ciphers [.aes1]) .aes1)
        hashes := raise keyAgreements .s512 (add (orDefaults hashes [.s256]) .s256)
        authTags := add (add (orDefaults authTags [.hs80, .hs32]) .hs32) .hs80
        keyAgreements
        sas := add (orDefaults sas [.b32]) .b32 } := by
  unfold ofLists raise
  dsimp only
  split <;> rfl

/-! ## Complete preferences -/

/-- Everything is there that a party must hold: an algorithm of each category,
and the strongest hash and cipher next to a post-quantum key agreement. -/
structure Complete (p : Preferences) : Prop where
  cipher : .aes1 ∈ p.ciphers
  hash : .s256 ∈ p.hashes
  shortTag : .hs32 ∈ p.authTags
  longTag : .hs80 ∈ p.authTags
  keyAgreement : .dh3k ∈ p.keyAgreements
  sas : .b32 ∈ p.sas
  strongHash : (∃ k ∈ p.keyAgreements, k.isPostQuantum = true) → .s512 ∈ p.hashes
  strongCipher : (∃ k ∈ p.keyAgreements, k.isPostQuantum = true) → .aes3 ∈ p.ciphers

theorem complete_ofLists (ciphers : List Cipher) (hashes : List Hash) (authTags : List AuthTag)
    (keyAgreements : List KeyAgreement) (sas : List Sas) :
    (ofLists ciphers hashes authTags keyAgreements sas).Complete := by
  rw [ofLists_eq]
  exact {
    cipher := mem_raise.mpr (.inl (mem_add.mpr (.inr rfl)))
    hash := mem_raise.mpr (.inl (mem_add.mpr (.inr rfl)))
    shortTag := mem_add.mpr (.inl (mem_add.mpr (.inr rfl)))
    longTag := mem_add.mpr (.inr rfl)
    keyAgreement := mem_add.mpr (.inr rfl)
    sas := mem_add.mpr (.inr rfl)
    strongHash := fun hquantum => mem_raise.mpr (.inr ⟨rfl, hquantum⟩)
    strongCipher := fun hquantum => mem_raise.mpr (.inr ⟨rfl, hquantum⟩) }

variable {p q : Preferences}

/-- What every party must hold, both hold. -/
theorem Complete.meet (hp : p.Complete) (hq : q.Complete) : p.Meet q where
  cipher := ⟨_, hp.cipher, hq.cipher⟩
  hash := ⟨_, hp.hash, hq.hash⟩
  authTag := ⟨_, hp.shortTag, hq.shortTag⟩
  keyAgreement := ⟨_, hp.keyAgreement, hq.keyAgreement⟩
  sas := ⟨_, hp.sas, hq.sas⟩

end Preferences

/-! ## The floor under post-quantum key agreements -/

variable {p q : Preferences} {a : Algorithms}

theorem KeyAgreement.needsStrong_of_isPostQuantum {k : KeyAgreement}
    (h : k.isPostQuantum = true) : k.needsStrong = true := by
  simp [KeyAgreement.needsStrong, h]

/-- The head of a ranking is chosen wherever both sides hold it. -/
theorem lifted_of_strongest {α : Type} [DecidableEq α] {k : KeyAgreement} {strongest a : α}
    {ranking offered held : List α} (hk : k.needsStrong = true) (hoffered : strongest ∈ offered)
    (hheld : strongest ∈ held) : lifted k (strongest :: ranking) offered held a = strongest := by
  unfold lifted lift
  rw [if_pos hk, List.find?_cons_of_pos (by simp [hoffered, hheld])]
  rfl

/-- A post-quantum key agreement that both sides hold has both hold the
strongest hash and cipher, and these are chosen. -/
theorem select_of_isPostQuantum (hp : p.Complete) (hq : q.Complete) (h : select p q = some a)
    (hquantum : a.isPostQuantum = true) : a.hash = .s512 ∧ a.cipher = .aes3 := by
  obtain ⟨hmem, hmem'⟩ := select_within h
  obtain ⟨cipher, hash, -, -, -, -, -, hcipher, hhash⟩ := select_eq_some_iff.mp h
  have hstrong := KeyAgreement.needsStrong_of_isPostQuantum hquantum
  have hhere : ∃ k ∈ p.keyAgreements, k.isPostQuantum = true := ⟨_, hmem.keyAgreement, hquantum⟩
  have hthere : ∃ k ∈ q.keyAgreements, k.isPostQuantum = true := ⟨_, hmem'.keyAgreement, hquantum⟩
  constructor
  · rw [hhash]
    exact lifted_of_strongest hstrong (hp.strongHash hhere) (hq.strongHash hthere)
  · rw [hcipher]
    exact lifted_of_strongest hstrong (hp.strongCipher hhere) (hq.strongCipher hthere)

end Switchboard.Zrtp
