import Switchboard.Proofs.Encryption.Configured
import Switchboard.Proofs.Zrtp.Reordering

/-!
# Whose order counts

Of several common suites or algorithms the offerer's first is taken, so only
the order of its lists can make a difference. The other side may list the same
suites and algorithms in any order and any number, and all comes out the same.
When the offering side does so, another suite or other algorithms may be
chosen, but in the same mode, and a call is refused in the same cases.
-/

namespace Switchboard.Zrtp

open Ranked

/-- Preferences made anew of lists with the same members, in any order and
any number. -/
inductive Preferences.Relisted (p : Preferences) : Preferences → Prop
  | ofLists (ciphers : List Cipher) (hashes : List Hash) (authTags : List AuthTag)
      (keyAgreements : List KeyAgreement) (sas : List Sas) (built : p.Built)
      (sameCiphers : SameMembers ciphers p.ciphers) (sameHashes : SameMembers hashes p.hashes)
      (sameAuthTags : SameMembers authTags p.authTags)
      (sameKeyAgreements : SameMembers keyAgreements p.keyAgreements)
      (sameSas : SameMembers sas p.sas) :
      Relisted p (ofLists ciphers hashes authTags keyAgreements sas)

theorem Preferences.Relisted.alike {p q : Preferences} (h : p.Relisted q) : q.Alike p := by
  cases h with
  | ofLists _ _ _ _ _ built hciphers hhashes hauthTags hkeyAgreements hsas =>
      exact built.complete.alike_ofLists hciphers hhashes hauthTags hkeyAgreements hsas

end Switchboard.Zrtp

namespace Switchboard.Encryption

open Ranked

variable {policy policy' : Policy} {peer peer' : Capabilities} {offerer : Offerer} {m : Mode}

/-! ## Sides that list the same -/

/-- The same policy, but for the order and number in which suites and
algorithms are listed. -/
structure Policy.Relisted (policy policy' : Policy) : Prop where
  mode : policy'.mode = policy.mode
  mandatory : policy'.mandatory = policy.mandatory
  acceptAny : policy'.acceptAny = policy.acceptAny
  dtls : policy'.catalog.dtls = policy.catalog.dtls
  suites : SameMembers policy'.catalog.suites policy.catalog.suites
  zrtp : policy.catalog.zrtp.Relisted policy'.catalog.zrtp

/-- The same capabilities, but for the order and number in which suites and
algorithms are listed. -/
structure Capabilities.Relisted (peer peer' : Capabilities) : Prop where
  mandatory : peer'.mandatory = peer.mandatory
  dtls : peer'.dtls = peer.dtls
  suites : SameMembers peer'.suites peer.suites
  zrtp : Option.Rel Zrtp.Preferences.Relisted peer.zrtp? peer'.zrtp?

theorem Capabilities.Relisted.zrtp_cases (h : peer.Relisted peer') :
    (peer.zrtp? = none ∧ peer'.zrtp? = none) ∨
      ∃ before after, peer.zrtp? = some before ∧ peer'.zrtp? = some after ∧
        before.Relisted after := by
  have hzrtp := h.zrtp
  generalize peer.zrtp? = before? at hzrtp ⊢
  generalize peer'.zrtp? = after? at hzrtp ⊢
  cases hzrtp with
  | none => exact .inl ⟨rfl, rfl⟩
  | some hrelisted => exact .inr ⟨_, _, rfl, rfl, hrelisted⟩

theorem Capabilities.Relisted.offers (h : peer.Relisted peer') (m : Mode) :
    peer'.offers m = peer.offers m := by
  cases m with
  | plain =>
      show (!peer'.mandatory) = !peer.mandatory
      rw [h.mandatory]
  | srtp =>
      show decide (peer'.suites ≠ []) = decide (peer.suites ≠ [])
      rw [decide_eq_decide]
      exact not_congr h.suites.eq_nil_iff
  | zrtp =>
      show peer'.zrtp?.isSome = peer.zrtp?.isSome
      obtain ⟨hbefore, hafter⟩ | ⟨_, _, hbefore, hafter, -⟩ := h.zrtp_cases
      · rw [hbefore, hafter]
      · rw [hbefore, hafter, Option.isSome_some, Option.isSome_some]
  | dtls => exact h.dtls

theorem Policy.Relisted.candidates (h : policy.Relisted policy') :
    candidates policy' peer = candidates policy peer := by
  unfold Encryption.candidates Policy.followsPeer
  rw [h.mode, h.acceptAny, h.mandatory]

theorem Capabilities.Relisted.candidates (h : peer.Relisted peer') :
    candidates policy peer' = candidates policy peer := by
  unfold Encryption.candidates Policy.followsPeer
  rw [h.mandatory]
  simp only [h.offers]

/-! ## The side that answers -/

/-- The order of a policy makes no difference when the peer offers. -/
theorem Policy.Relisted.agreeOn_peer (h : policy.Relisted policy') (m : Mode) :
    agreeOn policy' peer .peer m = agreeOn policy peer .peer m := by
  cases m with
  | plain => rfl
  | srtp =>
      rw [agreeOn_srtp, agreeOn_srtp]
      show (firstCommon peer.suites policy'.catalog.suites).map _ = _
      rw [firstCommon_congr h.suites]
      rfl
  | zrtp =>
      rw [agreeOn_zrtp, agreeOn_zrtp]
      simp only [Zrtp.Preferences.select_congr h.zrtp.alike]
  | dtls =>
      unfold agreeOn
      rw [h.dtls]

/-- The order of the peer makes no difference when this side offers. -/
theorem Capabilities.Relisted.agreeOn_here (h : peer.Relisted peer') (m : Mode) :
    agreeOn policy peer' .here m = agreeOn policy peer .here m := by
  cases m with
  | plain => rfl
  | srtp =>
      rw [agreeOn_srtp, agreeOn_srtp]
      show (firstCommon policy.catalog.suites peer'.suites).map _ = _
      rw [firstCommon_congr h.suites]
      rfl
  | zrtp =>
      rw [agreeOn_zrtp, agreeOn_zrtp]
      obtain ⟨hbefore, hafter⟩ | ⟨_, _, hbefore, hafter, hrelisted⟩ := h.zrtp_cases
      · rw [hbefore, hafter]
      · rw [hbefore, hafter]
        simp only [Option.bind_some, Zrtp.Preferences.select_congr hrelisted.alike]
  | dtls =>
      unfold agreeOn
      rw [h.dtls]

theorem Policy.Relisted.negotiate_peer (h : policy.Relisted policy') :
    negotiate policy' peer .peer = negotiate policy peer .peer := by
  unfold negotiate
  rw [h.candidates, h.mandatory, funext h.agreeOn_peer]

theorem Capabilities.Relisted.negotiate_here (h : peer.Relisted peer') :
    negotiate policy peer' .here = negotiate policy peer .here := by
  unfold negotiate
  rw [h.candidates, h.mandatory, funext h.agreeOn_here]

/-! ## The side that offers -/

/-- Means are the same for both offerers, so they stay what they are for the
one whose order makes no difference. -/
theorem Policy.Relisted.haveMeans_iff (h : policy.Relisted policy') :
    HaveMeans policy' peer m ↔ HaveMeans policy peer m := by
  have hagree : (agreeOn policy' peer .peer m).isSome ↔ (agreeOn policy peer .peer m).isSome := by
    rw [h.agreeOn_peer]
  rwa [agreeOn_isSome_iff, agreeOn_isSome_iff] at hagree

theorem Capabilities.Relisted.haveMeans_iff (h : peer.Relisted peer') :
    HaveMeans policy peer' m ↔ HaveMeans policy peer m := by
  have hagree : (agreeOn policy peer' .here m).isSome ↔ (agreeOn policy peer .here m).isSome := by
    rw [h.agreeOn_here]
  rwa [agreeOn_isSome_iff, agreeOn_isSome_iff] at hagree

/-- The mode found first is the first with means. -/
theorem findSome?_agreeOn_mode (policy : Policy) (peer : Capabilities) (offerer : Offerer)
    (modes : List Mode) :
    (modes.findSome? (agreeOn policy peer offerer)).map Agreement.mode =
      modes.find? fun m => (agreeOn policy peer offerer m).isSome := by
  induction modes with
  | nil => rfl
  | cons m modes ih =>
      rw [List.findSome?_cons, List.find?_cons]
      cases hagree : agreeOn policy peer offerer m with
      | none => exact ih
      | some agreement => exact congrArg some (agreeOn_mode hagree)

theorem negotiate_mode (policy : Policy) (peer : Capabilities) (offerer : Offerer) :
    (negotiate policy peer offerer).map Agreement.mode =
      match (candidates policy peer).find? fun m => (agreeOn policy peer offerer m).isSome with
      | some m => .ok m
      | none =>
        if policy.mandatory || peer.mandatory then .error .noCommonEncryption
        else .ok .plain := by
  rw [← findSome?_agreeOn_mode]
  unfold negotiate
  cases (candidates policy peer).findSome? (agreeOn policy peer offerer) with
  | some agreement => rfl
  | none =>
      show Except.map _ (if _ then _ else _) = if _ then _ else _
      split
      · rfl
      · rfl

/-- The mode, and whether the call is refused, depends on the modes that are
tried, on the means for them and on who insists. -/
theorem negotiate_mode_congr (hcandidates : candidates policy' peer' = candidates policy peer)
    (hmandatory : (policy'.mandatory || peer'.mandatory) = (policy.mandatory || peer.mandatory))
    (hmeans : ∀ m, HaveMeans policy' peer' m ↔ HaveMeans policy peer m) (offerer : Offerer) :
    (negotiate policy' peer' offerer).map Agreement.mode =
      (negotiate policy peer offerer).map Agreement.mode := by
  have hagree : (fun m => (agreeOn policy' peer' offerer m).isSome) =
      fun m => (agreeOn policy peer offerer m).isSome := by
    funext m
    rw [Bool.eq_iff_iff, agreeOn_isSome_iff, agreeOn_isSome_iff]
    exact hmeans m
  rw [negotiate_mode, negotiate_mode, hcandidates, hmandatory, hagree]

/-- **Only the offerer's order counts.** When the side that has not offered
lists its suites and algorithms in another order, or some of them more often,
the outcome is the same. When the side that has offered does so, the outcome is
in the same mode, or refused as before. -/
theorem offerer_order_counts (policy policy' : Policy) (peer peer' : Capabilities) :
    (policy.Relisted policy' →
      negotiate policy' peer .peer = negotiate policy peer .peer ∧
      (negotiate policy' peer .here).map Agreement.mode =
        (negotiate policy peer .here).map Agreement.mode) ∧
    (peer.Relisted peer' →
      negotiate policy peer' .here = negotiate policy peer .here ∧
      (negotiate policy peer' .peer).map Agreement.mode =
        (negotiate policy peer .peer).map Agreement.mode) := by
  constructor
  · intro h
    refine ⟨h.negotiate_peer, negotiate_mode_congr h.candidates ?_ (fun m => h.haveMeans_iff) _⟩
    rw [h.mandatory]
  · intro h
    refine ⟨h.negotiate_here, negotiate_mode_congr h.candidates ?_ (fun m => h.haveMeans_iff) _⟩
    rw [h.mandatory]

/-- A policy that lists everything the other way round, and some of it twice,
and a peer that does so too: as answers they come to the same, as offers to
another key agreement. -/
theorem offerer_order_counts_for_reversed :
    let gcm : Srtp.Suite := { cipher := .aesGcm256 }
    let sha : Srtp.Suite := { cipher := .aesCm128Sha80 }
    let p : Zrtp.Preferences := .ofLists [.aes3] [] [] [.x448] []
    let q : Zrtp.Preferences :=
      .ofLists [.aes1, .aes3, .aes1] [.s256] [.hs32, .hs80] [.dh3k, .x448] [.b32]
    let policy : Policy := { mode := .zrtp, catalog := { suites := [gcm, sha], zrtp := p } }
    let policy' : Policy := { mode := .zrtp, catalog := { suites := [sha, gcm, sha], zrtp := q } }
    let peer : Capabilities := { zrtp? := some p }
    let peer' : Capabilities := { zrtp? := some q }
    (policy.Relisted policy' ∧
      negotiate policy' peer .peer = negotiate policy peer .peer ∧
      negotiate policy' peer .here ≠ negotiate policy peer .here ∧
      (negotiate policy' peer .here).map Agreement.mode =
        (negotiate policy peer .here).map Agreement.mode) ∧
    (peer.Relisted peer' ∧
      negotiate policy peer' .here = negotiate policy peer .here ∧
      negotiate policy peer' .peer ≠ negotiate policy peer .peer ∧
      (negotiate policy peer' .peer).map Agreement.mode =
        (negotiate policy peer .peer).map Agreement.mode) := by
  intro gcm sha p q policy policy' peer peer'
  have hzrtp : p.Relisted q := .ofLists _ _ _ _ _ (.ofLists _ _ _ _ _) (by decide) (by decide)
    (by decide) (by decide) (by decide)
  have hpolicy : policy.Relisted policy' := {
    mode := rfl
    mandatory := rfl
    acceptAny := rfl
    dtls := rfl
    suites := by decide
    zrtp := hzrtp }
  have hpeer : peer.Relisted peer' := {
    mandatory := rfl
    dtls := rfl
    suites := by decide
    zrtp := .some hzrtp }
  obtain ⟨hhere, hthere⟩ := offerer_order_counts policy policy' peer peer'
  obtain ⟨hsame, hmode⟩ := hhere hpolicy
  obtain ⟨hsame', hmode'⟩ := hthere hpeer
  exact ⟨⟨hpolicy, hsame, by decide +kernel, hmode⟩, hpeer, hsame', by decide +kernel, hmode'⟩

end Switchboard.Encryption
