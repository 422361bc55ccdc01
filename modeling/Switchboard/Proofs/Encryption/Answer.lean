import Switchboard.Proofs.Encryption.Outcome

/-!
# Offer and answer

Both ends of a call run the same negotiation with the roles exchanged. What
the answering side agrees to is in the mode that was offered, and the offering
side comes to the very same agreement when the answer tells what it needs to
know about that mode, whatever else the answer says.
-/

namespace Switchboard.Encryption

variable {offer answer : Policy} {peer : Capabilities} {offerer : Offerer} {m : Mode}
  {r : Agreement}

/-! ## What an offer advertises -/

theorem mem_advertised_suites {suite : Srtp.Suite} :
    suite ∈ offer.advertised.suites ↔
      offer.mode = .srtp ∧ suite ∈ offer.catalog.suites := by
  unfold Policy.advertised
  by_cases h : offer.mode = .srtp <;> simp [h]

theorem advertised_zrtp_eq_some_iff {p : Zrtp.Preferences} :
    offer.advertised.zrtp? = some p ↔ offer.mode = .zrtp ∧ offer.catalog.zrtp = p := by
  unfold Policy.advertised
  by_cases h : offer.mode = .zrtp <;> simp [h]

theorem advertised_dtls_iff :
    offer.advertised.dtls = true ↔ offer.mode = .dtls ∧ offer.catalog.dtls = true := by
  simp [Policy.advertised]

theorem advertised_mandatory_iff :
    offer.advertised.mandatory = true ↔
      offer.mandatory = true ∧ offer.mode.isEncrypted = true := by
  simp [Policy.advertised]

/-! ## Agreements that a negotiation comes to -/

theorem agreeOn_of_negotiate (h : negotiate offer peer offerer = .ok r)
    (hr : r.isEncrypted = true) : agreeOn offer peer offerer r.mode = some r :=
  (firstUsable_of_negotiate h hr).2

/-- The wanted mode comes first. -/
theorem negotiate_of_agreeOn_wanted (h : agreeOn offer peer offerer offer.mode = some r) :
    negotiate offer peer offerer = .ok r := by
  have hattempt : attempt offer peer offerer offer.mode = some r := by
    have hallowed : Allowed offer peer offer.mode := Or.inl rfl
    unfold attempt
    rw [if_pos hallowed, h]
  rw [negotiate_eq, List.findSome?_cons, hattempt]

/-! ## The answer -/

/-- The capabilities tell, of the mode agreed on, what the answering side
holds: of its suites any that include the one agreed on, of its ZRTP
preferences all. -/
def Reflects (c : Capabilities) (answer : Policy) : Agreement → Prop
  | .plain => True
  | .srtp suite => suite ∈ c.suites ∧ ∀ s ∈ c.suites, s ∈ answer.catalog.suites
  | .zrtp _ => c.zrtp? = some answer.catalog.zrtp
  | .dtls => c.dtls = true

/-- An agreement on an offer is in the offered mode, and the offering side
agrees to the same on hearing of it. -/
theorem agreeOn_advertised (h : agreeOn answer offer.advertised .peer m = some r) :
    m = offer.mode ∧
      ∀ c, Reflects c answer r → agreeOn offer c .here offer.mode = some r := by
  cases m with
  | plain => exact absurd h (by simp [agreeOn])
  | srtp =>
      rw [agreeOn_srtp, Option.map_eq_some_iff] at h
      obtain ⟨suite, hsuite, rfl⟩ := h
      rw [Ranked.firstCommon_eq_some_iff] at hsuite
      obtain ⟨hmode, -⟩ := mem_advertised_suites.mp hsuite.mem_offered
      refine ⟨hmode.symm, ?_⟩
      rintro c ⟨hmem, hsub⟩
      have hoffered : offer.advertised.suites = offer.catalog.suites := by
        simp [Policy.advertised, hmode]
      -- the first suite of the offer that is held stays so among fewer held ones
      have hleads : Ranked.Leads offer.catalog.suites c.suites suite := by
        rw [← hoffered]
        exact hsuite.of_subset hmem hsub
      rw [hmode, agreeOn_srtp, Option.map_eq_some_iff]
      exact ⟨suite, Ranked.firstCommon_eq_some_iff.mpr hleads, rfl⟩
  | zrtp =>
      rw [agreeOn_zrtp, Option.bind_eq_some_iff] at h
      obtain ⟨theirs, htheirs, h⟩ := h
      obtain ⟨hmode, rfl⟩ := advertised_zrtp_eq_some_iff.mp htheirs
      refine ⟨hmode.symm, ?_⟩
      intro c hc
      rw [Option.map_eq_some_iff] at h
      obtain ⟨algorithms, halgorithms, rfl⟩ := h
      rw [hmode, agreeOn_zrtp, hc, Option.bind_some, halgorithms]
      rfl
  | dtls =>
      simp only [agreeOn, Option.ite_none_right_eq_some, Option.some.injEq,
        Bool.and_eq_true] at h
      obtain ⟨⟨hoffered, -⟩, rfl⟩ := h
      obtain ⟨hmode, hdtls⟩ := advertised_dtls_iff.mp hoffered
      refine ⟨hmode.symm, ?_⟩
      intro c hc
      rw [hmode]
      show (if c.dtls && offer.catalog.dtls then some Agreement.dtls else none) = _
      rw [show c.dtls = true from hc, hdtls]
      rfl

/-- Nothing is usable with a peer that offers nothing. -/
theorem not_usable_nothing (m : Mode) : ¬ Usable offer {} m := by
  intro h
  cases m with
  | plain => exact h.means
  | srtp =>
      obtain ⟨suite, -, hsuite⟩ := h.means
      exact absurd hsuite List.not_mem_nil
  | zrtp =>
      obtain ⟨theirs, htheirs, -⟩ := h.means
      exact absurd htheirs (by simp)
  | dtls => exact absurd h.means.2 (by simp)

/-- **Offer and answer agree.** If the answering side agrees to an encrypted
call, it is in the offered mode and the offering side comes to the same
agreement from any answer that reflects it. If the answering side goes on in
the clear although encryption was offered, so does the offering side when it
is answered with nothing. -/
theorem answer_agrees (offer answer : Policy) (r : Agreement)
    (h : negotiate answer offer.advertised .peer = .ok r) :
    (r.isEncrypted = true → r.mode = offer.mode ∧
      ∀ c, Reflects c answer r → negotiate offer c .here = .ok r) ∧
    (r.isEncrypted = false → offer.mode.isEncrypted = true →
      negotiate offer {} .here = .ok .plain) := by
  constructor
  · intro hr
    obtain ⟨hmode, hanswer⟩ := agreeOn_advertised (agreeOn_of_negotiate h hr)
    exact ⟨hmode, fun c hc => negotiate_of_agreeOn_wanted (hanswer c hc)⟩
  · intro hr hoffered
    have hplain : r = .plain := by
      by_contra hne
      rw [Agreement.isEncrypted_iff.mpr hne] at hr
      exact Bool.noConfusion hr
    subst hplain
    obtain ⟨-, -, hmandatory⟩ := negotiate_eq_plain_iff.mp h
    have hlenient : offer.mandatory = false := by
      by_contra hne
      rw [Bool.not_eq_false] at hne
      rw [advertised_mandatory_iff.mpr ⟨hne, hoffered⟩] at hmandatory
      exact Bool.noConfusion hmandatory
    exact negotiate_eq_plain_iff.mpr ⟨not_usable_nothing, hlenient, rfl⟩

/-- Both ends take the offerer's first suite, although the other end would
rather have the second. -/
theorem answer_agrees_on_offered_order :
    let long : Srtp.Suite := { cipher := .aesCm256Sha80 }
    let short : Srtp.Suite := { cipher := .aesCm128Sha80 }
    let offer : Policy := { mode := .srtp, catalog := { suites := [long, short] } }
    let answer : Policy := { mode := .srtp, catalog := { suites := [short, long] } }
    negotiate answer offer.advertised .peer = .ok (.srtp long) ∧
      negotiate offer answer.advertised .here = .ok (.srtp long) := by
  intro long short offer answer
  have h : negotiate answer offer.advertised .peer = .ok (.srtp long) := by decide
  obtain ⟨-, hagrees⟩ := (answer_agrees offer answer _ h).1 rfl
  exact ⟨h, hagrees answer.advertised ⟨by decide, by decide⟩⟩

end Switchboard.Encryption
