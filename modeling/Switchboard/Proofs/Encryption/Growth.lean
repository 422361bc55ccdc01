import Switchboard.Proofs.Encryption.Configured

/-!
# More means, no less encryption

A party that adds to what it holds may come to a call in another mode, as a
mode tried earlier may have become usable. But what was usable stays so: suites
are only added, and complete ZRTP preferences meet any others. So a call that
would have been encrypted is never lost to the clear or refused.
-/

namespace Switchboard.Encryption

variable {policy policy' : Policy} {peer peer' : Capabilities} {offerer : Offerer} {m : Mode}

/-- All suites stay, and ZRTP preferences are exchanged for any others. -/
structure Policy.Grows (policy policy' : Policy) : Prop where
  mode : policy'.mode = policy.mode
  mandatory : policy'.mandatory = policy.mandatory
  acceptAny : policy'.acceptAny = policy.acceptAny
  suites : policy.catalog.suites ⊆ policy'.catalog.suites
  zrtp : policy'.catalog.zrtp.Built
  dtls : policy.catalog.dtls = true → policy'.catalog.dtls = true

/-- All suites stay, and so do ZRTP, with any preferences, and DTLS where they
were offered. -/
structure Capabilities.Grows (peer peer' : Capabilities) : Prop where
  mandatory : peer'.mandatory = peer.mandatory
  suites : peer.suites ⊆ peer'.suites
  zrtp : peer.zrtp?.isSome = true → peer'.zrtp?.isSome = true
  built : ∀ theirs, peer'.zrtp? = some theirs → theirs.Built
  dtls : peer.dtls = true → peer'.dtls = true

theorem Capabilities.Grows.offers (h : peer.Grows peer') (hencrypted : m.isEncrypted = true)
    (hoffers : peer.offers m = true) : peer'.offers m = true := by
  cases m with
  | plain => exact Bool.noConfusion hencrypted
  | srtp =>
      have hsuites : peer.suites ≠ [] := of_decide_eq_true hoffers
      obtain ⟨suite, hsuite⟩ := List.exists_mem_of_ne_nil _ hsuites
      exact decide_eq_true (List.ne_nil_of_mem (h.suites hsuite))
  | zrtp => exact h.zrtp hoffers
  | dtls => exact h.dtls hoffers

theorem HaveMeans.grow (hpolicy : policy.Grows policy') (hpeer : peer.Grows peer')
    (h : HaveMeans policy peer m) : HaveMeans policy' peer' m := by
  cases m with
  | plain => exact h
  | srtp =>
      obtain ⟨suite, hhere, hthere⟩ := h
      exact ⟨suite, hpolicy.suites hhere, hpeer.suites hthere⟩
  | zrtp =>
      obtain ⟨before, hbefore, -⟩ := h
      obtain ⟨theirs, htheirs⟩ := Option.isSome_iff_exists.mp
        (hpeer.zrtp (Option.isSome_of_eq_some hbefore))
      -- the preferences may be new on both sides: they meet in what all must hold
      exact ⟨theirs, htheirs, hpolicy.zrtp.complete.meet (hpeer.built theirs htheirs).complete⟩
  | dtls => exact ⟨hpolicy.dtls h.1, hpeer.dtls h.2⟩

theorem Usable.grow (hpolicy : policy.Grows policy') (hpeer : peer.Grows peer')
    (h : Usable policy peer m) : Usable policy' peer' m where
  encrypted := h.encrypted
  means := h.means.grow hpolicy hpeer
  allowed := by
    rcases h.allowed with hwanted | ⟨hfollows, hoffers⟩
    · exact .inl (hwanted.trans hpolicy.mode.symm)
    · refine .inr ⟨?_, hpeer.offers h.encrypted hoffers⟩
      rwa [hpolicy.acceptAny, hpolicy.mandatory, hpeer.mandatory]

/-- **More means never weaken a call.** When either side, or both, add to what
they hold and insist on as much as before, a call that was encrypted still is. -/
theorem more_means_stay_encrypted (policy policy' : Policy) (peer peer' : Capabilities)
    (offerer : Offerer) (hpolicy : policy.Grows policy') (hpeer : peer.Grows peer')
    (h : ∃ r, negotiate policy peer offerer = .ok r ∧ r.isEncrypted = true) :
    ∃ r, negotiate policy' peer' offerer = .ok r ∧ r.isEncrypted = true := by
  rw [negotiate_encrypted_iff] at h ⊢
  obtain ⟨m, husable⟩ := h
  exact ⟨m, husable.grow hpolicy hpeer⟩

/-- A call over SRTP, the only means at first, goes over DTLS once the peer
offers more. Both sides also come with new ZRTP preferences. -/
theorem more_means_stay_encrypted_over_dtls :
    let ours : Zrtp.Preferences := .ofLists [.twofish3] [] [] [.kyb1] []
    let theirs : Zrtp.Preferences := .ofLists [.aes2] [.n384] [] [.x448] [.b256]
    let policy : Policy := { mode := .plain, mandatory := true, acceptAny := true }
    let policy' : Policy := { policy with catalog := { zrtp := ours } }
    let peer : Capabilities := { suites := [{ cipher := .aesCm128Sha32 }] }
    let peer' : Capabilities := {
      suites := [{ cipher := .aesGcm256 }, { cipher := .aesCm128Sha32 }]
      zrtp? := some theirs
      dtls := true }
    negotiate policy peer .peer = .ok (.srtp { cipher := .aesCm128Sha32 }) ∧
      (∃ r, negotiate policy' peer' .peer = .ok r ∧ r.isEncrypted = true) ∧
      negotiate policy' peer' .peer = .ok .dtls := by
  intro ours theirs policy policy' peer peer'
  have hours : ours.Built := .ofLists _ _ _ _ _
  have htheirs : theirs.Built := .ofLists _ _ _ _ _
  have hpolicy : policy.Grows policy' := {
    mode := rfl
    mandatory := rfl
    acceptAny := rfl
    suites := List.Subset.refl _
    zrtp := hours
    dtls := id }
  have hpeer : peer.Grows peer' := {
    mandatory := rfl
    suites := List.subset_cons_self _ _
    zrtp := fun _ => rfl
    built := by
      intro p hp
      obtain rfl := Option.some.inj hp
      exact htheirs
    dtls := fun _ => rfl }
  have h : negotiate policy peer .peer = .ok (.srtp { cipher := .aesCm128Sha32 }) := by decide
  exact ⟨h, more_means_stay_encrypted policy policy' peer peer' .peer hpolicy hpeer ⟨_, h, rfl⟩,
    by decide +kernel⟩

end Switchboard.Encryption
