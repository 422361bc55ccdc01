import Mathlib.Data.List.Basic
import Switchboard.Encryption.Negotiation
import Switchboard.Proofs.Zrtp.Selection

/-!
# The outcome of a negotiation

What a negotiation comes to, told without the way it is computed: a mode is
usable when both sides hold means for it and this side may use it, and the
first usable mode in a fixed order is agreed on. Without a usable mode the
call is in the clear, or refused when a side insists on encryption.
-/

namespace Switchboard.Encryption

variable {policy : Policy} {peer : Capabilities} {offerer : Offerer} {m : Mode}

/-! ## Usable modes -/

/-- Both sides hold what this mode needs. -/
def HaveMeans (policy : Policy) (peer : Capabilities) : Mode → Prop
  | .plain => False
  | .srtp => ∃ suite ∈ policy.catalog.suites, suite ∈ peer.suites
  | .zrtp => ∃ theirs, peer.zrtp? = some theirs ∧ policy.catalog.zrtp.Meet theirs
  | .dtls => policy.catalog.dtls = true ∧ peer.dtls = true

theorem HaveMeans.isEncrypted (h : HaveMeans policy peer m) : m.isEncrypted = true := by
  cases m with
  | plain => exact h.elim
  | srtp => rfl
  | zrtp => rfl
  | dtls => rfl

/-- This side may use the mode: it is the wanted one, or the peer offers it
and this side takes any, or has to follow a peer that insists. -/
def Allowed (policy : Policy) (peer : Capabilities) (m : Mode) : Prop :=
  m = policy.mode ∨
    (policy.acceptAny = true ∨ (peer.mandatory = true ∧ policy.mandatory = false)) ∧
      peer.offers m = true

structure Usable (policy : Policy) (peer : Capabilities) (m : Mode) : Prop where
  encrypted : m.isEncrypted = true
  means : HaveMeans policy peer m
  allowed : Allowed policy peer m

/-- The mode is usable, and none before it in the order is: the wanted mode
first, then DTLS, ZRTP and SRTP. -/
def FirstUsable (policy : Policy) (peer : Capabilities) (m : Mode) : Prop :=
  Usable policy peer m ∧ ∃ before after,
    [policy.mode, .dtls, .zrtp, .srtp] = before ++ m :: after ∧
      ∀ n ∈ before, ¬ Usable policy peer n

/-! ## Agreements -/

/-- Suites of the side that offers, and of the other one. -/
def offeredSuites (policy : Policy) (peer : Capabilities) : Offerer → List Srtp.Suite
  | .here => policy.catalog.suites
  | .peer => peer.suites

def heldSuites (policy : Policy) (peer : Capabilities) : Offerer → List Srtp.Suite
  | .here => peer.suites
  | .peer => policy.catalog.suites

/-- Both sides hold the means agreed on; of several common suites it is the
offerer's first. -/
def Agreement.Fits (policy : Policy) (peer : Capabilities) (offerer : Offerer) :
    Agreement → Prop
  | .plain => True
  | .srtp suite =>
    Ranked.Leads (offeredSuites policy peer offerer) (heldSuites policy peer offerer) suite
  | .zrtp algorithms =>
    algorithms.Within policy.catalog.zrtp ∧
      ∃ theirs, peer.zrtp? = some theirs ∧ algorithms.Within theirs
  | .dtls => policy.catalog.dtls = true ∧ peer.dtls = true

/-- Just the mode that takes a suite has one, just the mode that takes
algorithms has these, and just a post-quantum key agreement among these makes
the agreement post-quantum. -/
structure Agreement.Consistent (a : Agreement) : Prop where
  suite : a.suite?.isSome ↔ a.mode = .srtp
  algorithms : a.algorithms?.isSome ↔ a.mode = .zrtp
  postQuantum : a.isPostQuantum = true ↔ a.mode = .zrtp ∧
    ∃ algorithms, a.algorithms? = some algorithms ∧
      algorithms.keyAgreement.isPostQuantum = true

theorem Agreement.consistent (a : Agreement) : a.Consistent := by
  cases a <;> constructor <;> simp [suite?, algorithms?, mode, isPostQuantum,
    Zrtp.Algorithms.isPostQuantum]

/-! ## One mode -/

theorem agreeOn_srtp (policy : Policy) (peer : Capabilities) (offerer : Offerer) :
    agreeOn policy peer offerer .srtp =
      (Ranked.firstCommon (offeredSuites policy peer offerer)
        (heldSuites policy peer offerer)).map .srtp := by
  cases offerer <;> rfl

theorem agreeOn_zrtp (policy : Policy) (peer : Capabilities) (offerer : Offerer) :
    agreeOn policy peer offerer .zrtp = peer.zrtp?.bind fun theirs =>
      (match offerer with
        | .here => Zrtp.select policy.catalog.zrtp theirs
        | .peer => Zrtp.select theirs policy.catalog.zrtp).map .zrtp := by
  cases offerer <;> rfl

/-- Algorithms agreed on are chosen of the preferences of both sides, one of
which has offered. -/
theorem agreeOn_zrtp_eq_some {a : Agreement} (h : agreeOn policy peer offerer .zrtp = some a) :
    ∃ algorithms theirs, a = .zrtp algorithms ∧ peer.zrtp? = some theirs ∧
      (Zrtp.select policy.catalog.zrtp theirs = some algorithms ∨
        Zrtp.select theirs policy.catalog.zrtp = some algorithms) := by
  rw [agreeOn_zrtp, Option.bind_eq_some_iff] at h
  obtain ⟨theirs, hpeer, h⟩ := h
  rw [Option.map_eq_some_iff] at h
  obtain ⟨algorithms, hselect, rfl⟩ := h
  refine ⟨algorithms, theirs, rfl, hpeer, ?_⟩
  cases offerer with
  | here => exact .inl hselect
  | peer => exact .inr hselect

theorem agreeOn_isSome_iff : (agreeOn policy peer offerer m).isSome ↔ HaveMeans policy peer m := by
  cases m with
  | plain => simp [agreeOn, HaveMeans]
  | srtp =>
      rw [agreeOn_srtp, Option.isSome_map, Ranked.firstCommon_isSome_iff]
      cases offerer with
      | here => rfl
      | peer =>
          constructor
          · rintro ⟨suite, hoffered, hheld⟩
            exact ⟨suite, hheld, hoffered⟩
          · rintro ⟨suite, hheld, hoffered⟩
            exact ⟨suite, hoffered, hheld⟩
  | zrtp =>
      rw [agreeOn_zrtp]
      show _ ↔ ∃ theirs, peer.zrtp? = some theirs ∧ policy.catalog.zrtp.Meet theirs
      cases hpeer : peer.zrtp? with
      | none => simp
      | some theirs =>
          cases offerer with
          | here => simp [Zrtp.select_isSome_iff]
          | peer =>
              simp only [Option.bind_some, Option.isSome_map, Zrtp.select_isSome_iff,
                Option.some.injEq, exists_eq_left']
              exact ⟨Zrtp.Preferences.Meet.symm, Zrtp.Preferences.Meet.symm⟩
  | dtls =>
      show (if peer.dtls && policy.catalog.dtls then some Agreement.dtls else none).isSome ↔
        policy.catalog.dtls = true ∧ peer.dtls = true
      cases peer.dtls <;> cases policy.catalog.dtls <;> simp

theorem agreeOn_mode {a : Agreement} (h : agreeOn policy peer offerer m = some a) :
    a.mode = m := by
  cases m with
  | plain => exact absurd h (by simp [agreeOn])
  | srtp =>
      rw [agreeOn_srtp, Option.map_eq_some_iff] at h
      obtain ⟨suite, -, rfl⟩ := h
      rfl
  | zrtp =>
      obtain ⟨algorithms, theirs, rfl, -⟩ := agreeOn_zrtp_eq_some h
      rfl
  | dtls =>
      simp only [agreeOn, Option.ite_none_right_eq_some, Option.some.injEq] at h
      rw [← h.2]
      rfl

theorem agreeOn_fits {a : Agreement} (h : agreeOn policy peer offerer m = some a) :
    a.Fits policy peer offerer := by
  cases m with
  | plain => exact absurd h (by simp [agreeOn])
  | srtp =>
      rw [agreeOn_srtp, Option.map_eq_some_iff] at h
      obtain ⟨suite, hsuite, rfl⟩ := h
      exact Ranked.firstCommon_eq_some_iff.mp hsuite
  | zrtp =>
      obtain ⟨algorithms, theirs, rfl, hpeer, hselect⟩ := agreeOn_zrtp_eq_some h
      rcases hselect with hselect | hselect
      · have hwithin := Zrtp.select_within hselect
        exact ⟨hwithin.1, theirs, hpeer, hwithin.2⟩
      · have hwithin := Zrtp.select_within hselect
        exact ⟨hwithin.2, theirs, hpeer, hwithin.1⟩
  | dtls =>
      simp only [agreeOn, Option.ite_none_right_eq_some, Option.some.injEq] at h
      obtain ⟨hboth, rfl⟩ := h
      rw [Bool.and_eq_true] at hboth
      exact ⟨hboth.2, hboth.1⟩

/-! ## The modes in order -/

instance (policy : Policy) (peer : Capabilities) (m : Mode) :
    Decidable (Allowed policy peer m) :=
  inferInstanceAs (Decidable (_ ∨ _ ∧ _))

/-- The agreement in one mode, if this side may use it. -/
def attempt (policy : Policy) (peer : Capabilities) (offerer : Offerer) (m : Mode) :
    Option Agreement :=
  if Allowed policy peer m then agreeOn policy peer offerer m else none

theorem attempt_eq_none_iff : attempt policy peer offerer m = none ↔ ¬ Usable policy peer m := by
  unfold attempt
  split
  · rename_i hallowed
    rw [← Option.not_isSome_iff_eq_none, agreeOn_isSome_iff]
    exact not_congr ⟨fun hmeans => ⟨hmeans.isEncrypted, hmeans, hallowed⟩, Usable.means⟩
  · rename_i hnot
    exact ⟨fun _ h => hnot h.allowed, fun _ => rfl⟩

theorem attempt_eq_some {a : Agreement} (h : attempt policy peer offerer m = some a) :
    Usable policy peer m ∧ agreeOn policy peer offerer m = some a := by
  have husable : Usable policy peer m := by
    by_contra hnot
    rw [attempt_eq_none_iff.mpr hnot] at h
    exact absurd h (by simp)
  unfold attempt at h
  rw [if_pos husable.allowed] at h
  exact ⟨husable, h⟩

/-- The wanted mode alone: in the clear there is nothing to try. -/
theorem findSome?_wanted (policy : Policy) (peer : Capabilities) (offerer : Offerer) :
    (if policy.mode.isEncrypted then [policy.mode] else []).findSome?
        (agreeOn policy peer offerer) = attempt policy peer offerer policy.mode := by
  have hallowed : Allowed policy peer policy.mode := Or.inl rfl
  unfold attempt
  rw [if_pos hallowed]
  split
  · simp
  · rename_i hplain
    cases hmode : policy.mode with
    | plain => rfl
    | srtp => exact absurd (by rw [hmode]; rfl) hplain
    | zrtp => exact absurd (by rw [hmode]; rfl) hplain
    | dtls => exact absurd (by rw [hmode]; rfl) hplain

theorem followsPeer_iff : policy.followsPeer peer = true ↔
    policy.acceptAny = true ∨ (peer.mandatory = true ∧ policy.mandatory = false) := by
  simp [Policy.followsPeer]

/-- Once the wanted mode has failed, the fallbacks that are tried are all that
are allowed. -/
theorem attempt_of_mem_fallbacks (hfailed : attempt policy peer offerer policy.mode = none)
    (hm : m ∈ fallbacks) :
    attempt policy peer offerer m =
      if policy.followsPeer peer && (decide (m ∉ if policy.mode.isEncrypted then [policy.mode]
          else []) && peer.offers m) then
        agreeOn policy peer offerer m
      else none := by
  have hencrypted : m.isEncrypted = true := by
    simp only [fallbacks, List.mem_cons, List.not_mem_nil, or_false] at hm
    rcases hm with rfl | rfl | rfl <;> rfl
  by_cases hwanted : m = policy.mode
  -- the wanted mode is not tried again, and would fail again
  · subst hwanted
    rw [hfailed, if_pos hencrypted]
    simp
  · have hnew : m ∉ if policy.mode.isEncrypted then [policy.mode] else [] := by
      split <;> simp [hwanted]
    have hallowed : Allowed policy peer m ↔
        (policy.followsPeer peer && peer.offers m) = true := by
      rw [Bool.and_eq_true, followsPeer_iff]
      exact ⟨fun h => h.resolve_left hwanted, Or.inr⟩
    unfold attempt
    simp only [hnew, hallowed, not_false_eq_true, decide_true, Bool.true_and]

/-- The candidates, one after another, come to the same as all modes in order
with those passed over that this side may not use. -/
theorem findSome?_candidates (policy : Policy) (peer : Capabilities) (offerer : Offerer) :
    (candidates policy peer).findSome? (agreeOn policy peer offerer) =
      [policy.mode, .dtls, .zrtp, .srtp].findSome? (attempt policy peer offerer) := by
  have hsplit : candidates policy peer =
      (if policy.mode.isEncrypted then [policy.mode] else []) ++
        fallbacks.filter fun m => policy.followsPeer peer &&
          (decide (m ∉ if policy.mode.isEncrypted then [policy.mode] else []) &&
            peer.offers m) := by
    unfold candidates
    cases policy.followsPeer peer <;> simp
  rw [hsplit, List.findSome?_append, findSome?_wanted, List.findSome?_cons]
  cases hfirst : attempt policy peer offerer policy.mode with
  | some a => rfl
  | none =>
      -- both searches go on through the fallbacks, one filtered beforehand
      show _ = fallbacks.findSome? (attempt policy peer offerer)
      rw [Option.none_or, ← List.head?_filterMap, ← List.head?_filterMap,
        List.filterMap_filter]
      congr 1
      apply List.filterMap_congr
      intro m hm
      exact (attempt_of_mem_fallbacks hfirst hm).symm

theorem firstUsable_of_findSome? {a : Agreement}
    (h : [policy.mode, .dtls, .zrtp, .srtp].findSome? (attempt policy peer offerer) = some a) :
    FirstUsable policy peer a.mode ∧ agreeOn policy peer offerer a.mode = some a := by
  rw [List.findSome?_eq_some_iff] at h
  obtain ⟨before, m, after, hsplit, hm, hbefore⟩ := h
  obtain ⟨husable, hagree⟩ := attempt_eq_some hm
  rw [agreeOn_mode hagree]
  refine ⟨⟨husable, before, after, hsplit, ?_⟩, hagree⟩
  intro n hn
  exact attempt_eq_none_iff.mp (hbefore n hn)

theorem findSome?_attempt_eq_none_iff :
    [policy.mode, .dtls, .zrtp, .srtp].findSome? (attempt policy peer offerer) = none ↔
      ∀ m, ¬ Usable policy peer m := by
  rw [List.findSome?_eq_none_iff]
  constructor
  · intro h m husable
    have hm : m ∈ [policy.mode, .dtls, .zrtp, .srtp] := by
      have hencrypted := husable.encrypted
      cases m with
      | plain => exact absurd hencrypted (by simp [Mode.isEncrypted])
      | srtp => simp
      | zrtp => simp
      | dtls => simp
    exact attempt_eq_none_iff.mp (h m hm) husable
  · intro h m _
    exact attempt_eq_none_iff.mpr (h m)

/-! ## The outcome -/

theorem negotiate_eq (policy : Policy) (peer : Capabilities) (offerer : Offerer) :
    negotiate policy peer offerer =
      match [policy.mode, .dtls, .zrtp, .srtp].findSome? (attempt policy peer offerer) with
      | some agreement => .ok agreement
      | none =>
        if policy.mandatory || peer.mandatory then .error .noCommonEncryption
        else .ok .plain := by
  rw [← findSome?_candidates]
  rfl

theorem negotiate_of_unusable (h : ∀ m, ¬ Usable policy peer m) :
    negotiate policy peer offerer =
      if policy.mandatory || peer.mandatory then .error .noCommonEncryption
      else .ok .plain := by
  rw [negotiate_eq, findSome?_attempt_eq_none_iff.mpr h]

theorem negotiate_of_usable (offerer : Offerer) (h : ∃ m, Usable policy peer m) :
    ∃ agreement, negotiate policy peer offerer = .ok agreement ∧
      FirstUsable policy peer agreement.mode ∧
      agreeOn policy peer offerer agreement.mode = some agreement := by
  cases hfind : [policy.mode, .dtls, .zrtp, .srtp].findSome? (attempt policy peer offerer) with
  | none =>
      obtain ⟨m, hm⟩ := h
      exact absurd hm (findSome?_attempt_eq_none_iff.mp hfind m)
  | some agreement =>
      refine ⟨agreement, ?_, firstUsable_of_findSome? hfind⟩
      rw [negotiate_eq, hfind]

theorem Agreement.isEncrypted_iff {a : Agreement} : a.isEncrypted = true ↔ a ≠ .plain := by
  cases a <;> simp [isEncrypted, mode, Mode.isEncrypted]

theorem FirstUsable.ne_plain {a : Agreement} (h : FirstUsable policy peer a.mode) :
    a ≠ .plain :=
  Agreement.isEncrypted_iff.mp h.1.encrypted

/-- An encrypted call is in the first usable mode, with what both sides agree
on in that mode. -/
theorem firstUsable_of_negotiate {r : Agreement} (h : negotiate policy peer offerer = .ok r)
    (hr : r.isEncrypted = true) :
    FirstUsable policy peer r.mode ∧ agreeOn policy peer offerer r.mode = some r := by
  by_cases husable : ∃ m, Usable policy peer m
  · obtain ⟨agreement, heq, hfirst, hagree⟩ := negotiate_of_usable offerer husable
    rw [heq, Except.ok.injEq] at h
    subst h
    exact ⟨hfirst, hagree⟩
  · rw [negotiate_of_unusable (not_exists.mp husable)] at h
    split at h
    · exact absurd h (by simp)
    · rw [Except.ok.injEq] at h
      exact absurd h.symm (Agreement.isEncrypted_iff.mp hr)

/-- A call is encrypted exactly when some mode is usable. -/
theorem negotiate_encrypted_iff (policy : Policy) (peer : Capabilities) (offerer : Offerer) :
    (∃ r, negotiate policy peer offerer = .ok r ∧ r.isEncrypted = true) ↔
      ∃ m, Usable policy peer m := by
  constructor
  · rintro ⟨r, h, hr⟩
    obtain ⟨hfirst, -⟩ := firstUsable_of_negotiate h hr
    exact ⟨r.mode, hfirst.1⟩
  · intro husable
    obtain ⟨agreement, heq, hfirst, -⟩ := negotiate_of_usable offerer husable
    exact ⟨agreement, heq, Agreement.isEncrypted_iff.mpr hfirst.ne_plain⟩

theorem negotiate_eq_error_iff :
    negotiate policy peer offerer = .error .noCommonEncryption ↔
      (∀ m, ¬ Usable policy peer m) ∧ (policy.mandatory = true ∨ peer.mandatory = true) := by
  by_cases h : ∃ m, Usable policy peer m
  · obtain ⟨agreement, heq, -⟩ := negotiate_of_usable offerer h
    rw [heq]
    exact ⟨fun h => absurd h (by simp), fun hnone => absurd h (not_exists.mpr hnone.1)⟩
  · rw [not_exists] at h
    rw [negotiate_of_unusable h]
    cases policy.mandatory <;> cases peer.mandatory <;> simp [h]

theorem negotiate_eq_plain_iff :
    negotiate policy peer offerer = .ok .plain ↔
      (∀ m, ¬ Usable policy peer m) ∧ policy.mandatory = false ∧ peer.mandatory = false := by
  by_cases h : ∃ m, Usable policy peer m
  · obtain ⟨agreement, heq, hfirst, -⟩ := negotiate_of_usable offerer h
    rw [heq, Except.ok.injEq]
    exact ⟨fun h => absurd h hfirst.ne_plain, fun hnone => absurd h (not_exists.mpr hnone.1)⟩
  · rw [not_exists] at h
    rw [negotiate_of_unusable h]
    cases policy.mandatory <;> cases peer.mandatory <;> simp [h]

/-- **The outcome of a negotiation.** It is refused exactly when no mode is
usable and a side insists on encryption, in the clear exactly when none is and
neither side insists, and otherwise an agreement in the first usable mode with
means that both sides hold. -/
theorem negotiate_outcome (policy : Policy) (peer : Capabilities) (offerer : Offerer) :
    (negotiate policy peer offerer = .error .noCommonEncryption ↔
      (∀ m, ¬ Usable policy peer m) ∧ (policy.mandatory = true ∨ peer.mandatory = true)) ∧
    (negotiate policy peer offerer = .ok .plain ↔
      (∀ m, ¬ Usable policy peer m) ∧ policy.mandatory = false ∧ peer.mandatory = false) ∧
    ((∃ m, Usable policy peer m) → ∃ agreement,
      negotiate policy peer offerer = .ok agreement ∧
        FirstUsable policy peer agreement.mode ∧ agreement.Fits policy peer offerer ∧
        agreement.Consistent) := by
  refine ⟨negotiate_eq_error_iff, negotiate_eq_plain_iff, ?_⟩
  intro h
  obtain ⟨agreement, heq, hfirst, hagree⟩ := negotiate_of_usable offerer h
  exact ⟨agreement, heq, hfirst, agreeOn_fits hagree, agreement.consistent⟩

end Switchboard.Encryption
