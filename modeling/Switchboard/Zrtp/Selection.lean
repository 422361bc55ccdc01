import Switchboard.Zrtp.Preferences

/-!
# Choosing ZRTP algorithms

In each category the offerer's first algorithm that the answerer holds is
chosen. A key agreement that needs strong primitives lifts hash and cipher to
the strongest ones that both sides hold.
-/

namespace Switchboard.Zrtp

/-- One algorithm of each category. -/
structure Algorithms where
  cipher : Cipher
  hash : Hash
  authTag : AuthTag
  keyAgreement : KeyAgreement
  sas : Sas
  deriving DecidableEq, Repr

def Algorithms.isPostQuantum (a : Algorithms) : Bool :=
  a.keyAgreement.isPostQuantum

/-- Hashes from the strongest down. -/
def Hash.ranking : List Hash :=
  [.s512, .s384, .s256]

/-- Ciphers from the strongest down. -/
def Cipher.ranking : List Cipher :=
  [.aes3, .aes2, .aes1]

variable {α : Type} [DecidableEq α]

/-- First entry of `ranking` in both lists, else the fallback. -/
def lift (ranking offered held : List α) (fallback : α) : α :=
  (ranking.find? fun a => a ∈ offered ∧ a ∈ held).getD fallback

def select (offerer answerer : Preferences) : Option Algorithms := do
  let keyAgreement ← Ranked.firstCommon offerer.keyAgreements answerer.keyAgreements
  let cipher ← Ranked.firstCommon offerer.ciphers answerer.ciphers
  let hash ← Ranked.firstCommon offerer.hashes answerer.hashes
  let authTag ← Ranked.firstCommon offerer.authTags answerer.authTags
  let sas ← Ranked.firstCommon offerer.sas answerer.sas
  if keyAgreement.needsStrong then
    let hash := lift Hash.ranking offerer.hashes answerer.hashes hash
    let cipher := lift Cipher.ranking offerer.ciphers answerer.ciphers cipher
    pure { cipher, hash, authTag, keyAgreement, sas }
  else pure { cipher, hash, authTag, keyAgreement, sas }

end Switchboard.Zrtp
