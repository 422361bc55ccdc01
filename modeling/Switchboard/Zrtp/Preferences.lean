import Switchboard.Ranked
import Switchboard.Zrtp.Algorithm

/-!
# ZRTP preferences

Each side lists the algorithms it holds, category by category and most wanted
first. Lists name an algorithm once, an empty list takes the default of its
category, and the algorithms every party must hold are appended where they
are missing. Whoever offers a post-quantum key agreement also holds the
longest hash and the cipher with the longest key.
-/

namespace Switchboard.Zrtp

structure Preferences where
  ciphers : List Cipher
  hashes : List Hash
  authTags : List AuthTag
  keyAgreements : List KeyAgreement
  sas : List Sas
  deriving DecidableEq, Repr

namespace Preferences

/-- First occurrences, or the defaults when there are none. -/
def orDefaults {α : Type} [DecidableEq α] (xs defaults : List α) : List α :=
  if Ranked.ofList xs = [] then defaults else Ranked.ofList xs

def ofLists (ciphers : List Cipher) (hashes : List Hash) (authTags : List AuthTag)
    (keyAgreements : List KeyAgreement) (sas : List Sas) : Preferences :=
  let ciphers := Ranked.add (orDefaults ciphers [.aes1]) .aes1
  let hashes := Ranked.add (orDefaults hashes [.s256]) .s256
  let authTags := Ranked.add (Ranked.add (orDefaults authTags [.hs80, .hs32]) .hs32) .hs80
  let keyAgreements := Ranked.add (orDefaults keyAgreements [.dh3k]) .dh3k
  let sas := Ranked.add (orDefaults sas [.b32]) .b32
  if keyAgreements.any KeyAgreement.isPostQuantum then
    { ciphers := Ranked.add ciphers .aes3, hashes := Ranked.add hashes .s512, authTags,
      keyAgreements, sas }
  else { ciphers, hashes, authTags, keyAgreements, sas }

/-- What is offered when nothing is configured. -/
def defaults : Preferences :=
  ofLists [] [] [] [] []

end Preferences

end Switchboard.Zrtp
