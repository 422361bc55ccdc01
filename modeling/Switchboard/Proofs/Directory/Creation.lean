import Switchboard.Proofs.Directory.Invitation

/-!
# New rooms

A call to the factory makes a room exactly if one of the addresses tried for it
is free, and the room gets the first of them. Where all are taken, or none may
be tried, the caller is turned away and the directory stays as it was, though a
room without an address has been told of in between.
-/

namespace Switchboard.Directory

open Room (focusContact)

variable {d : Directory} {a : Address} {tokens : Nat → String} {request : Room.Invite}

/-! ## Free addresses -/

/-- No room is reached at this address. -/
def Free (d : Directory) (a : Address) : Prop :=
  ∀ room ∈ d.rooms, ∀ b, room.conference? = some b → b.sameParty a = false

theorem isTaken_eq_false_iff : d.isTaken a = false ↔ d.Free a := by
  unfold isTaken Free
  rw [List.any_eq_false]
  refine forall₂_congr fun room _ => ?_
  rw [isAt_iff]
  constructor
  · intro h b hb
    rw [← Bool.not_eq_true]
    exact fun hsame => h ⟨b, hb, hsame⟩
  · rintro h ⟨b, hb, hsame⟩
    rw [h b hb] at hsame
    exact Bool.noConfusion hsame

/-! ## The address of a new room -/

/-- The `i`-th address tried for a room that this request asks for. -/
def tried (request : Room.Invite) (tokens : Nat → String) (i : Nat) : Address :=
  Room.candidate (Room.ofInvite request).focus (tokens i)

theorem freeCandidate?_eq_none_iff {attempts : Nat} :
    (Room.ofInvite request).freeCandidate? d.isTaken tokens attempts = none ↔
      ∀ i < attempts, ¬d.Free (tried request tokens i) := by
  unfold Room.freeCandidate?
  rw [Room.firstFree_eq_none_iff]
  simp only [Nat.zero_le, forall_const, Nat.zero_add, ← isTaken_eq_false_iff,
    Bool.not_eq_false', Bool.not_eq_false]
  rfl

/-- The first free address, among those that may be tried. -/
structure FirstFree (d : Directory) (tokens : Nat → String) (request : Room.Invite)
    (i : Nat) : Prop where
  inReach : i < d.maxAttempts
  free : d.Free (tried request tokens i)
  first : ∀ j < i, ¬d.Free (tried request tokens j)

theorem FirstFree.unique {i k : Nat} (hi : FirstFree d tokens request i)
    (hk : FirstFree d tokens request k) : i = k := by
  rcases Nat.lt_trichotomy i k with hlt | heq | hlt
  · exact absurd hi.free (hk.first i hlt)
  · exact heq
  · exact absurd hk.free (hi.first k hlt)

theorem firstFree_of_freeCandidate? {i : Nat}
    (h : (Room.ofInvite request).freeCandidate? d.isTaken tokens d.maxAttempts = some i) :
    FirstFree d tokens request i := by
  obtain ⟨hfree, -, hlt, hfirst⟩ := Room.firstFree_eq_some h
  rw [Bool.not_eq_true'] at hfree
  refine ⟨by omega, isTaken_eq_false_iff.mp hfree, ?_⟩
  intro j hj
  have htaken := hfirst j (Nat.zero_le j) hj
  rw [Bool.not_eq_false'] at htaken
  rw [← isTaken_eq_false_iff, Bool.not_eq_false]
  exact htaken

/-- The search finds the first free address, whichever it is. -/
theorem freeCandidate?_of_firstFree {i : Nat} (h : FirstFree d tokens request i) :
    (Room.ofInvite request).freeCandidate? d.isTaken tokens d.maxAttempts = some i := by
  cases hfound : (Room.ofInvite request).freeCandidate? d.isTaken tokens d.maxAttempts with
  | none => exact absurd h.free (freeCandidate?_eq_none_iff.mp hfound i h.inReach)
  | some k => rw [h.unique (firstFree_of_freeCandidate? hfound)]

/-! ## Calls to the factory -/

theorem create_isOk_iff :
    (∃ a, (d.create tokens request).1 = .ok a) ↔
      ∃ i < d.maxAttempts, d.Free (tried request tokens i) := by
  cases hfound : (Room.ofInvite request).freeCandidate? d.isTaken tokens d.maxAttempts with
  | none =>
      have htaken := freeCandidate?_eq_none_iff.mp hfound
      rw [create_of_taken hfound]
      constructor
      · rintro ⟨a, ha⟩
        exact absurd ha (by simp)
      · rintro ⟨i, hi, hfree⟩
        exact absurd hfree (htaken i hi)
  | some i =>
      have hi := firstFree_of_freeCandidate? hfound
      rw [create_of_free hfound]
      exact ⟨fun _ => ⟨i, hi.inReach, hi.free⟩, fun _ => ⟨_, rfl⟩⟩

/-- **A new room gets the first free address.** However many tries there are,
a call to the factory succeeds exactly if an address among those tried is free.
The first of them goes to the new room, which is empty, has the subject of the
call and stands behind the rooms there were, all of them untouched; the caller
is sent there. If all tries fail, the caller is declined and no room is kept. -/
theorem first_free_address_given (d : Directory) (tokens : Nat → String)
    (hfactory : request.target.sameParty d.factory = true) :
    let address (i : Nat) : Address :=
      { scheme := request.target.scheme, user? := some ("chatroom-" ++ tokens i)
        host := request.target.host, port? := request.target.port? }
    let out := d.invite tokens request
    ((∃ a, out.1 = .ok a) ↔ ∃ i < d.maxAttempts, d.Free (address i)) ∧
      (∀ i < d.maxAttempts, d.Free (address i) → (∀ j < i, ¬d.Free (address j)) →
        ∃ room, room.conference? = some (address i) ∧ room.state = .created ∧
          room.roster = { active := [], removed := [] } ∧ room.subject = request.subject?.getD "" ∧
          out = (.ok (address i), { d with rooms := d.rooms ++ [room] },
            [.notify ⟨none, 1, .stateChanged .creationPending⟩,
              .redirect request.session ((address i).setParam "isfocus"),
              .notify ⟨some (address i), 2, .stateChanged .created⟩])) ∧
      ((∀ i < d.maxAttempts, ¬d.Free (address i)) →
        out = (.error (.room (.noFreeAddress d.maxAttempts)), d,
          [.notify ⟨none, 1, .stateChanged .creationPending⟩,
            .notify ⟨none, 2, .stateChanged .terminated⟩,
            .decline request.session .notAcceptable])) := by
  intro address out
  have hout : out = d.create tokens request := invite_of_factory hfactory
  rw [hout]
  refine ⟨create_isOk_iff, ?_, ?_⟩
  · intro i hi hfree hfirst
    have hgiven : FirstFree d tokens request i := ⟨hi, hfree, hfirst⟩
    refine ⟨(Room.ofInvite request).established (address i), rfl, rfl, rfl, rfl, ?_⟩
    exact create_of_free (freeCandidate?_of_firstFree hgiven)
  · intro htaken
    exact create_of_taken (freeCandidate?_eq_none_iff.mpr htaken)

/-- The factory draws the token of a room that exists, and another one. -/
theorem first_free_address_given_at_second_try :
    let factory : Address := { user? := some "factory", host := "localhost" }
    let alice : Address := { user? := some "alice", host := "localhost" }
    let address (token : String) : Address :=
      { user? := some ("chatroom-" ++ token), host := "localhost" }
    let call : Room.Invite :=
      { session := ⟨"1"⟩, sender := alice, target := factory, contact := alice }
    let tokens (i : Nat) := if i = 0 then "a" else "b"
    let opened : Directory := { factory, maxAttempts := 2 }
    let d := (opened.invite tokens call).2.1
    call.target.sameParty d.factory = true ∧ d.rooms.length = 1 ∧ ¬d.Free (address "a") ∧
      ∃ room, room.conference? = some (address "b") ∧
        room.roster = { active := [], removed := [] } ∧
        (d.invite tokens call).1 = .ok (address "b") ∧
        (d.invite tokens call).2.1.rooms = d.rooms ++ [room] := by
  intro factory alice address call tokens opened d
  have hfactory : call.target.sameParty d.factory = true := by decide +kernel
  have htaken : ¬d.Free (address "a") := by
    rw [← isTaken_eq_false_iff]
    decide +kernel
  have hfree : d.Free (address "b") := isTaken_eq_false_iff.mp (by decide +kernel)
  have hfirst : ∀ j < 1, ¬d.Free (address (tokens j)) := by
    intro j hj
    obtain rfl : j = 0 := by omega
    exact htaken
  obtain ⟨-, hgiven, -⟩ := first_free_address_given d tokens hfactory
  obtain ⟨room, hconference, -, hroster, -, hout⟩ := hgiven 1 (by decide +kernel) hfree hfirst
  exact ⟨hfactory, by decide +kernel, htaken, room, hconference, hroster,
    congrArg Prod.fst hout, congrArg (·.2.1.rooms) hout⟩

end Switchboard.Directory
