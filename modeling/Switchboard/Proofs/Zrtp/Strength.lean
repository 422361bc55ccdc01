import Switchboard.Proofs.Zrtp.Choice

/-!
# The strength of a lift

A ranking names the ciphers, or the hashes, of one family from the strongest
down, and what both sides hold of the other family does not count in a lift. So
a lift takes the largest of its own family. Where both sides hold a larger one
of the other family it falls short of that, even if the order alone would have
chosen it.
-/

namespace Switchboard.Zrtp

open Ranked

variable {p q : Preferences} {a : Algorithms}

/-! ## Sizes -/

/-- Length of the key. -/
def Cipher.keyBits : Cipher → Nat
  | aes1 | twofish1 => 128
  | aes2 | twofish2 => 192
  | aes3 | twofish3 => 256

/-- Length of the digest. -/
def Hash.bits : Hash → Nat
  | s256 | n256 => 256
  | s384 | n384 => 384
  | s512 => 512

theorem Cipher.ranking_sorted : Cipher.ranking.Pairwise fun c d => d.keyBits ≤ c.keyBits := by
  decide

theorem Hash.ranking_sorted : Hash.ranking.Pairwise fun c d => d.bits ≤ c.bits := by
  decide

/-! ## Ciphers and hashes that are matched -/

/-- Every cipher has a ranked one beside it that is as large, unless a large one
of the other family stands alone. -/
theorem ciphers_matched_iff {ciphers : List Cipher} (h : .aes1 ∈ ciphers) :
    (∀ c ∈ ciphers, ∃ s ∈ Cipher.ranking, s ∈ ciphers ∧ c.keyBits ≤ s.keyBits) ↔
      (.twofish2 ∈ ciphers → .aes2 ∈ ciphers ∨ .aes3 ∈ ciphers) ∧
        (.twofish3 ∈ ciphers → .aes3 ∈ ciphers) := by
  constructor
  · intro hall
    constructor
    · intro hmem
      simpa [Cipher.ranking, Cipher.keyBits, or_comm] using hall _ hmem
    · intro hmem
      simpa [Cipher.ranking, Cipher.keyBits] using hall _ hmem
  · rintro ⟨htwo, hthree⟩ c hc
    cases c with
    | aes1 | aes2 | aes3 => exact ⟨_, by decide, hc, Nat.le_refl _⟩
    | twofish1 => exact ⟨.aes1, by decide, h, Nat.le_refl _⟩
    | twofish2 =>
        rcases htwo hc with hs | hs
        · exact ⟨.aes2, by decide, hs, by decide⟩
        · exact ⟨.aes3, by decide, hs, by decide⟩
    | twofish3 => exact ⟨.aes3, by decide, hthree hc, Nat.le_refl _⟩

theorem hashes_matched_iff {hashes : List Hash} (h : .s256 ∈ hashes) :
    (∀ d ∈ hashes, ∃ s ∈ Hash.ranking, s ∈ hashes ∧ d.bits ≤ s.bits) ↔
      (.n384 ∈ hashes → .s384 ∈ hashes ∨ .s512 ∈ hashes) := by
  constructor
  · intro hall hmem
    simpa [Hash.ranking, Hash.bits, or_comm] using hall _ hmem
  · intro hlarge d hd
    cases d with
    | s256 | s384 | s512 => exact ⟨_, by decide, hd, Nat.le_refl _⟩
    | n256 => exact ⟨.s256, by decide, h, Nat.le_refl _⟩
    | n384 =>
        rcases hlarge hd with hs | hs
        · exact ⟨.s384, by decide, hs, by decide⟩
        · exact ⟨.s512, by decide, hs, by decide⟩

/-! ## The lift -/

/-- Nothing is larger than what goes with a post-quantum key agreement. -/
theorem largest_of_isPostQuantum (hp : p.Complete) (hq : q.Complete) (h : select p q = some a)
    (hquantum : a.isPostQuantum = true) :
    (∀ c, Cipher.keyBits c ≤ a.cipher.keyBits) ∧ ∀ d, Hash.bits d ≤ a.hash.bits := by
  obtain ⟨hhash, hcipher⟩ := select_of_isPostQuantum hp hq h hquantum
  rw [hhash, hcipher]
  exact ⟨by intro c; cases c <;> decide, by intro d; cases d <;> decide⟩

/-- **How strong a lift is.** Two parties always agree on something. Where the
key agreement calls for strong primitives, the chosen cipher is at least as
large as another exactly if both sides hold a ranked one that is; so it goes
for hashes, and for what the order alone would choose. Hence the cipher is the
largest that both sides hold unless they share a large Twofish one and no AES
to match it, and the hash is unless they share the large Skein one and no SHA
to match it. Next to a post-quantum key agreement both always are. -/
theorem lift_largest_iff (hp : p.Built) (hq : q.Built) :
    ∃ a, select p q = some a ∧
      (a.keyAgreement.needsStrong = true →
        let ciphers := common p.ciphers q.ciphers
        let hashes := common p.hashes q.hashes
        (∀ c : Cipher, c.keyBits ≤ a.cipher.keyBits ↔
          ∃ s ∈ [.aes3, .aes2, .aes1], s ∈ ciphers ∧ c.keyBits ≤ s.keyBits) ∧
        (∀ d : Hash, d.bits ≤ a.hash.bits ↔
          ∃ s ∈ [.s512, .s384, .s256], s ∈ hashes ∧ d.bits ≤ s.bits) ∧
        ((∀ c ∈ ciphers, c.keyBits ≤ a.cipher.keyBits) ↔
          (.twofish2 ∈ ciphers → .aes2 ∈ ciphers ∨ .aes3 ∈ ciphers) ∧
            (.twofish3 ∈ ciphers → .aes3 ∈ ciphers)) ∧
        ((∀ d ∈ hashes, d.bits ≤ a.hash.bits) ↔
          (.n384 ∈ hashes → .s384 ∈ hashes ∨ .s512 ∈ hashes)) ∧
        (a.isPostQuantum = true →
          (∀ c ∈ ciphers, c.keyBits ≤ a.cipher.keyBits) ∧
            ∀ d ∈ hashes, d.bits ≤ a.hash.bits)) := by
  obtain ⟨a, ha⟩ := Option.isSome_iff_exists.mp
    (select_isSome_iff.mpr (hp.complete.meet hq.complete))
  refine ⟨a, ha, ?_⟩
  intro hstrong ciphers hashes
  obtain ⟨hhash, hcipher⟩ := leads_of_needsStrong hp.complete hq.complete ha hstrong
  have hciphers (c : Cipher) := hcipher.le_size_iff Cipher.ranking_sorted c.keyBits
  have hhashes (d : Hash) := hhash.le_size_iff Hash.ranking_sorted d.bits
  refine ⟨hciphers, hhashes, ?_, ?_, ?_⟩
  · have hleast : .aes1 ∈ ciphers := mem_common.mpr ⟨hp.complete.cipher, hq.complete.cipher⟩
    rw [← ciphers_matched_iff hleast]
    exact forall₂_congr fun c _ => hciphers c
  · have hleast : .s256 ∈ hashes := mem_common.mpr ⟨hp.complete.hash, hq.complete.hash⟩
    rw [← hashes_matched_iff hleast]
    exact forall₂_congr fun d _ => hhashes d
  · intro hquantum
    obtain ⟨hc, hd⟩ := largest_of_isPostQuantum hp.complete hq.complete ha hquantum
    exact ⟨fun c _ => hc c, fun d _ => hd d⟩

/-- Both hold AES with 256 bits next to Twofish, and Skein alone: the cipher is
the largest and the hash is not. -/
theorem lift_largest_iff_over_large_curve :
    let p := Preferences.ofLists [.twofish3, .aes3] [.n384] [] [.ec52] []
    let q := Preferences.ofLists [.aes3, .twofish3] [.n384] [] [.ec52] []
    ∃ a, select p q = some a ∧ a.keyAgreement = .ec52 ∧
      (∀ c ∈ common p.ciphers q.ciphers, c.keyBits ≤ a.cipher.keyBits) ∧
      ¬∀ d ∈ common p.hashes q.hashes, d.bits ≤ a.hash.bits := by
  intro p q
  have hvalue : select p q = some {
      cipher := .aes3, hash := .s256, authTag := .hs80, keyAgreement := .ec52, sas := .b32 } := by
    decide +kernel
  have hp : p.Built := .ofLists [.twofish3, .aes3] [.n384] [] [.ec52] []
  have hq : q.Built := .ofLists [.aes3, .twofish3] [.n384] [] [.ec52] []
  obtain ⟨a, ha, hlift⟩ := lift_largest_iff hp hq
  obtain rfl := Option.some.inj (hvalue.symm.trans ha)
  obtain ⟨-, -, hciphers, hhashes, -⟩ := hlift (by decide)
  refine ⟨_, hvalue, rfl, hciphers.mpr (by decide), ?_⟩
  rw [hhashes]
  decide

/-- A lift can weaken: over a large curve, the Twofish and Skein that both sides
name first give way to a cipher and a hash of half and two thirds their size. -/
theorem lift_can_weaken :
    let p := Preferences.ofLists [.twofish3] [.n384] [] [.x448] []
    ∃ a, select p p = some a ∧ a.keyAgreement.needsStrong = true ∧
      Leads p.ciphers p.ciphers .twofish3 ∧ a.cipher.keyBits < Cipher.twofish3.keyBits ∧
      Leads p.hashes p.hashes .n384 ∧ a.hash.bits < Hash.n384.bits := by
  intro p
  have hvalue : select p p = some {
      cipher := .aes1, hash := .s256, authTag := .hs80, keyAgreement := .x448, sas := .b32 } := by
    decide +kernel
  have hcipher : Leads p.ciphers p.ciphers .twofish3 := firstCommon_eq_some_iff.mp (by decide)
  have hhash : Leads p.hashes p.hashes .n384 := firstCommon_eq_some_iff.mp (by decide)
  exact ⟨_, hvalue, by decide, hcipher, by decide, hhash, by decide⟩

end Switchboard.Zrtp
