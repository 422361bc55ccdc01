import Switchboard.Proofs.Zrtp.Preferences

/-!
# The normal form of preferences

Preferences made of lists name an algorithm once. Each of their lists starts
with what is named, or with a default, and goes on with what a party must hold
and nothing else. Lists that hold all this already are taken as they are: no
default stands in and nothing is appended, so preferences made anew of their
own lists are the same.
-/

namespace Switchboard.Zrtp.Preferences

open Ranked

/-- Each list names an algorithm once. -/
structure Distinct (p : Preferences) : Prop where
  ciphers : p.ciphers.Nodup
  hashes : p.hashes.Nodup
  authTags : p.authTags.Nodup
  keyAgreements : p.keyAgreements.Nodup
  sas : p.sas.Nodup

section

variable {α : Type} [DecidableEq α] {xs defaults : List α} {a : α}
  {keyAgreements : List KeyAgreement}

theorem nodup_orDefaults (h : defaults.Nodup) : (orDefaults xs defaults).Nodup := by
  unfold orDefaults
  split
  · exact h
  · exact nodup_ofList xs

theorem nodup_raise (h : xs.Nodup) : (raise keyAgreements a xs).Nodup := by
  unfold raise
  split
  · exact nodup_add h
  · exact h

/-- A list that names something, and nothing twice, is taken as it is. -/
theorem orDefaults_of_nodup (h : xs.Nodup) (ha : a ∈ xs) : orDefaults xs defaults = xs := by
  unfold orDefaults
  rw [ofList_of_nodup h, if_neg (List.ne_nil_of_mem ha)]

theorem raise_of_mem (h : (∃ k ∈ keyAgreements, k.isPostQuantum = true) → a ∈ xs) :
    raise keyAgreements a xs = xs := by
  unfold raise
  split
  · rename_i hquantum
    exact add_of_mem (h (List.any_eq_true.mp hquantum))
  · rfl

end

/-! ## Completion -/

/-- A list that starts with these entries, goes on with those of the extras that
are not among them, and names nothing else and nothing twice. -/
structure Completes {α : Type} (start extras xs : List α) : Prop where
  nodup : xs.Nodup
  starts : start <+: xs
  mem_iff : ∀ a, a ∈ xs ↔ a ∈ start ∨ a ∈ extras

section

variable {α : Type} [DecidableEq α] {start extras xs defaults : List α}
  {keyAgreements : List KeyAgreement}

/-- What a list starts with: its entries in order of first occurrence, or the
defaults if there are none. -/
theorem orDefaults_eq : orDefaults xs defaults = if xs = [] then defaults else xs.eraseDups := by
  have hnil : ofList xs = [] ↔ xs = [] := by
    simp only [List.eq_nil_iff_forall_not_mem, mem_ofList]
  unfold orDefaults
  simp only [hnil]
  rw [ofList_eq_eraseDups]

theorem completes_orDefaults (xs defaults : List α) (h : defaults.Nodup) :
    Completes (if xs = [] then defaults else xs.eraseDups) [] (orDefaults xs defaults) where
  nodup := nodup_orDefaults h
  starts := by simp only [orDefaults_eq, List.prefix_rfl]
  mem_iff := by simp [orDefaults_eq]

theorem Completes.add (h : Completes start extras xs) (a : α) :
    Completes start (extras ++ [a]) (add xs a) where
  nodup := nodup_add h.nodup
  starts := h.starts.trans (prefix_add xs a)
  mem_iff := by
    intro b
    rw [mem_add, h.mem_iff, List.mem_append, List.mem_singleton, or_assoc]

theorem Completes.raise (h : Completes start extras xs) (a : α) :
    Completes start
      (extras ++ if keyAgreements.any KeyAgreement.isPostQuantum then [a] else [])
      (raise keyAgreements a xs) := by
  unfold Preferences.raise
  split
  · exact h.add a
  · rwa [List.append_nil]

end

/-! ## Preferences -/

theorem distinct_ofLists (ciphers : List Cipher) (hashes : List Hash) (authTags : List AuthTag)
    (keyAgreements : List KeyAgreement) (sas : List Sas) :
    (ofLists ciphers hashes authTags keyAgreements sas).Distinct := by
  rw [ofLists_eq]
  exact {
    ciphers := nodup_raise (nodup_add (nodup_orDefaults (by decide)))
    hashes := nodup_raise (nodup_add (nodup_orDefaults (by decide)))
    authTags := nodup_add (nodup_add (nodup_orDefaults (by decide)))
    keyAgreements := nodup_add (nodup_orDefaults (by decide))
    sas := nodup_add (nodup_orDefaults (by decide)) }

/-- Preferences in normal form are what their own lists make. -/
theorem Complete.ofLists_self {p : Preferences} (h : p.Complete) (hdistinct : p.Distinct) :
    ofLists p.ciphers p.hashes p.authTags p.keyAgreements p.sas = p := by
  rw [ofLists_eq, orDefaults_of_nodup hdistinct.ciphers h.cipher,
    orDefaults_of_nodup hdistinct.hashes h.hash,
    orDefaults_of_nodup hdistinct.authTags h.shortTag,
    orDefaults_of_nodup hdistinct.keyAgreements h.keyAgreement,
    orDefaults_of_nodup hdistinct.sas h.sas, add_of_mem h.cipher, add_of_mem h.hash,
    add_of_mem h.shortTag, add_of_mem h.longTag, add_of_mem h.keyAgreement, add_of_mem h.sas]
  dsimp only
  rw [raise_of_mem h.strongCipher, raise_of_mem h.strongHash]

/-- **The normal form of preferences.** Whatever five lists they are made of,
each list of the preferences starts with what is named, in order of first
occurrence, or with the default of its category; it goes on with what a party
must hold, to which a post-quantum key agreement adds the longest hash and the
cipher with the longest key; and it names nothing else, and nothing twice. Made
anew of their own lists, the preferences stay as they are. -/
theorem ofLists_in_normal_form (ciphers : List Cipher) (hashes : List Hash)
    (authTags : List AuthTag) (keyAgreements : List KeyAgreement) (sas : List Sas) :
    let p := ofLists ciphers hashes authTags keyAgreements sas
    let quantum := p.keyAgreements.any KeyAgreement.isPostQuantum
    Completes (if ciphers = [] then [.aes1] else ciphers.eraseDups)
        ([.aes1] ++ if quantum then [.aes3] else []) p.ciphers ∧
      Completes (if hashes = [] then [.s256] else hashes.eraseDups)
        ([.s256] ++ if quantum then [.s512] else []) p.hashes ∧
      Completes (if authTags = [] then [.hs80, .hs32] else authTags.eraseDups)
        [.hs32, .hs80] p.authTags ∧
      Completes (if keyAgreements = [] then [.dh3k] else keyAgreements.eraseDups)
        [.dh3k] p.keyAgreements ∧
      Completes (if sas = [] then [.b32] else sas.eraseDups) [.b32] p.sas ∧
      ofLists p.ciphers p.hashes p.authTags p.keyAgreements p.sas = p := by
  intro p quantum
  have hself : ofLists p.ciphers p.hashes p.authTags p.keyAgreements p.sas = p :=
    (complete_ofLists ciphers hashes authTags keyAgreements sas).ofLists_self
      (distinct_ofLists ciphers hashes authTags keyAgreements sas)
  have hp := ofLists_eq ciphers hashes authTags keyAgreements sas
  have hciphers : p.ciphers =
      raise p.keyAgreements .aes3 (add (orDefaults ciphers [.aes1]) .aes1) := by
    simp only [p, hp]
  have hhashes : p.hashes =
      raise p.keyAgreements .s512 (add (orDefaults hashes [.s256]) .s256) := by
    simp only [p, hp]
  have htags : p.authTags = add (add (orDefaults authTags [.hs80, .hs32]) .hs32) .hs80 := by
    simp only [p, hp]
  have hkeys : p.keyAgreements = add (orDefaults keyAgreements [.dh3k]) .dh3k := by
    simp only [p, hp]
  have hsas : p.sas = add (orDefaults sas [.b32]) .b32 := by
    simp only [p, hp]
  refine ⟨?_, ?_, ?_, ?_, ?_, hself⟩
  · rw [hciphers]
    exact ((completes_orDefaults ciphers [.aes1] (by decide)).add .aes1).raise .aes3
  · rw [hhashes]
    exact ((completes_orDefaults hashes [.s256] (by decide)).add .s256).raise .s512
  · rw [htags]
    exact ((completes_orDefaults authTags [.hs80, .hs32] (by decide)).add .hs32).add .hs80
  · rw [hkeys]
    exact (completes_orDefaults keyAgreements [.dh3k] (by decide)).add .dh3k
  · rw [hsas]
    exact (completes_orDefaults sas [.b32] (by decide)).add .b32

end Switchboard.Zrtp.Preferences
