import Switchboard.Proofs.Room.Recipients
import Switchboard.Proofs.Room.Succession

/-!
# Withdrawn invitations

A party that is invited and taken out again before it has joined was never more
than a guest without a session: nothing of it is kept, nobody takes over from
it, and the room never gets empty. So the room is as it was, however often this
happens, and only the number of its last notice has grown.
-/

namespace Switchboard.Room

variable {r : Room} {conference a : Address} {p : Participant}

/-! ## Histories of withdrawals -/

/-- Invitations of a party, each withdrawn before the party has joined. -/
def withdrawals (a : Address) (rounds : Nat) : List Operation :=
  (List.replicate rounds [.invite a, .expel a]).flatten

/-- What a room answers to the operations of a history, in order. -/
def replies (r : Room) : List Operation → List Answer
  | [] => []
  | op :: rest => (r.step op).1 :: replies (r.step op).2.1 rest

/-- Whom the effects ask to contact somebody, and whom to contact, in order. -/
def referrals (effects : List Effect) : List (Address × Address) :=
  effects.filterMap fun
    | .refer target referTo => some (target, referTo)
    | _ => none

/-! ## One withdrawal -/

/-- The room takes participants, has an administrator and does not know the
party. -/
structure Admits (r : Room) (conference a : Address) : Prop where
  live : r.liveAddress? = some conference
  administrator : ∃ p ∈ r.roster.active, p.isAdmin = true
  stranger : r.roster.find? a = none

theorem Admits.ne_nil (h : Admits r conference a) : r.roster.active ≠ [] := by
  obtain ⟨p, hp, -⟩ := h.administrator
  exact List.ne_nil_of_mem hp

theorem Admits.invite (h : Admits r conference a) :
    r.invite a = (.ok (), r.welcomed [a],
      announced r.conference? r.sequence [requestTo conference a]) := by
  have hcovers := covers_addresses r.roster
  have hnew : newcomers (r.roster.active.map (·.address)) [a] = [a] := by
    rw [newcomers_singleton, hcovers a, h.stranger]
    rfl
  have happly := invite_apply h.live h.ne_nil hcovers a
  rw [hnew] at happly
  exact happly

theorem find?_welcomed_self (h : r.roster.find? a = none) :
    (r.welcomed [a]).roster.find? a = some (.ofAddress a) := by
  rw [find?_welcomed, h, Option.none_or, List.map_singleton]
  exact List.find?_cons_of_pos (Address.sameParty_refl a)

/-- Taking a guest out undoes its arrival: it stands behind all others, and has
no session to wait for. -/
theorem remove_welcomed (h : r.roster.find? a = none) :
    (r.welcomed [a]).roster.remove a = r.roster := by
  have hothers : ∀ q ∈ r.roster.active, ¬q.address.sameParty a = true := by
    intro q hq
    rw [Roster.find?_eq_none_iff.mp h q hq]
    exact Bool.false_ne_true
  have hactive : (r.welcomed [a]).roster.active.eraseP (fun q => q.address.sameParty a) =
      r.roster.active := by
    show (r.roster.active ++ [Participant.ofAddress a]).eraseP _ = _
    rw [List.eraseP_append_right _ hothers,
      List.eraseP_cons_of_pos (by exact Address.sameParty_refl a), List.append_nil]
  unfold Roster.remove
  rw [find?_welcomed_self h]
  dsimp only
  rw [hactive]
  rfl

theorem settle_of_admin (hp : p ∈ r.roster.active) (hadmin : p.isAdmin = true) :
    settle r = (r, []) := by
  have hany : r.roster.active.any (·.isAdmin) = true := List.any_eq_true.mpr ⟨p, hp, hadmin⟩
  unfold settle
  split
  · rename_i hnil
    rw [hnil] at hp
    exact absurd hp List.not_mem_nil
  · exact if_pos hany

/-- The request to a party to leave, and what is told of it. -/
def dismissalOf (conference a : Address) : Effect × Event :=
  (.refer a (referTo conference true), .participantRemoved a)

theorem Admits.expel (h : Admits r conference a) :
    (r.welcomed [a]).expel a = (.ok (), { r with sequence := r.sequence + 2 },
      announced r.conference? (r.sequence + 1) [dismissalOf conference a]) := by
  have hlive : (r.welcomed [a]).liveAddress? = some conference := h.live
  have hfind := find?_welcomed_self h.stranger
  obtain ⟨p, hp, hadmin⟩ := h.administrator
  have htold : notify (.participantRemoved a) { r.welcomed [a] with roster := r.roster } =
      ({ r with sequence := r.sequence + 2 },
        [.notify ⟨r.conference?, r.sequence + 2, .participantRemoved a⟩]) := rfl
  have hsettle : settle { r with sequence := r.sequence + 2 } =
      ({ r with sequence := r.sequence + 2 }, []) :=
    settle_of_admin hp hadmin
  have hone : (Participant.ofAddress a).address = a := rfl
  unfold Room.expel
  rw [hlive]
  dsimp only
  rw [hfind]
  dsimp only
  rw [andThen_apply, emit_fst, depart_of_find? hfind, andThen_apply,
    remove_welcomed h.stranger, hone, htold, hsettle]
  rfl

theorem Admits.step_invite (h : Admits r conference a) :
    r.step (.invite a) = (.done, r.welcomed [a],
      announced r.conference? r.sequence [requestTo conference a]) := by
  unfold step
  dsimp only
  rw [h.invite]
  rfl

theorem Admits.step_expel (h : Admits r conference a) :
    (r.welcomed [a]).step (.expel a) = (.done, { r with sequence := r.sequence + 2 },
      announced r.conference? (r.sequence + 1) [dismissalOf conference a]) := by
  unfold step
  dsimp only
  rw [h.expel]
  rfl

/-! ## Any number of withdrawals -/

/-- The party as stranger again, whatever the room has told since. -/
theorem Admits.later (h : Admits r conference a) (n : Nat) :
    Admits { r with sequence := n } conference a :=
  ⟨h.live, h.administrator, h.stranger⟩

/-- What goes out and is told while a party is invited and dismissed. -/
def dealings (conference a : Address) (rounds : Nat) : List (Effect × Event) :=
  (List.replicate rounds [requestTo conference a, dismissalOf conference a]).flatten

theorem Admits.run_withdrawals (h : Admits r conference a) (rounds : Nat) :
    replies r (withdrawals a rounds) = List.replicate (2 * rounds) .done ∧
      r.run (withdrawals a rounds) = ({ r with sequence := r.sequence + 2 * rounds },
        announced r.conference? r.sequence (dealings conference a rounds)) := by
  induction rounds generalizing r with
  | zero => exact ⟨rfl, rfl⟩
  | succ rounds ih =>
      have hops : withdrawals a (rounds + 1) = .invite a :: .expel a :: withdrawals a rounds := rfl
      obtain ⟨hreplies, hrun⟩ := ih (h.later (r.sequence + 2))
      constructor
      · rw [hops, replies, replies, h.step_invite]
        dsimp only
        rw [h.step_expel]
        dsimp only
        rw [hreplies]
        rfl
      · rw [hops, run_cons, run_cons, h.step_invite]
        dsimp only
        rw [h.step_expel]
        dsimp only
        rw [hrun, show r.sequence + 2 + 2 * rounds = r.sequence + 2 * (rounds + 1) by omega]
        rfl

theorem length_dealings (conference a : Address) (rounds : Nat) :
    (dealings conference a rounds).length = 2 * rounds := by
  simp [dealings, Nat.mul_comm]

theorem exists_refer_of_mem_dealings {rounds : Nat} {signal : Effect × Event}
    (h : signal ∈ dealings conference a rounds) :
    ∃ referTo, signal.1 = .refer a referTo := by
  obtain ⟨round, hround, hsignal⟩ := List.mem_flatten.mp h
  rw [List.eq_of_mem_replicate hround, List.mem_pair] at hsignal
  rcases hsignal with rfl | rfl
  · exact ⟨_, rfl⟩
  · exact ⟨_, rfl⟩

/-- Where every signal asks somebody to make contact, there are as many such
requests as notices. -/
theorem length_announced (room? : Option Address) (last : Nat) {signals : List (Effect × Event)}
    (h : ∀ signal ∈ signals, ∃ referTo, signal.1 = .refer a referTo) :
    (notices (announced room? last signals)).length = signals.length ∧
      (referrals (announced room? last signals)).length = signals.length := by
  induction signals generalizing last with
  | nil => exact ⟨rfl, rfl⟩
  | cons signal rest ih =>
      obtain ⟨referTo, hsignal⟩ := h signal List.mem_cons_self
      obtain ⟨hnotices, hreferrals⟩ := ih (last + 1) fun signal hmem => h signal (.tail _ hmem)
      rw [announced, hsignal]
      exact ⟨congrArg (· + 1) hnotices, congrArg (· + 1) hreferrals⟩

theorem referTo_of_bare (h : conference.identity = conference) :
    referTo conference false = { conference with params := [⟨"text", none⟩] } ∧
      referTo conference true = { conference with
        params := [⟨"text", none⟩], uriParams := [⟨"method", some "BYE"⟩] } := by
  have hparams : conference.params = [] := (congrArg Address.params h).symm
  have huriParams : conference.uriParams = [] := (congrArg Address.uriParams h).symm
  unfold referTo Address.setParam Address.setUriParam
  rw [hparams]
  dsimp only
  rw [huriParams]
  exact ⟨rfl, rfl⟩

/-- **Withdrawn invitations leave no trace.** Whatever has happened to a room
in which somebody takes part, a stranger can be invited and taken out again any
number of times: every operation succeeds, and the room is as it was but for
the number of its last notice. Each time the stranger is asked to join and then
to leave the same room, and each request is told before the next. -/
theorem withdrawals_leave_no_trace (start : Invite) (ops : List Operation) (a : Address)
    (rounds : Nat) (hsome : ((ofInvite start).run ops).1.roster.active ≠ [])
    (hnew : ∀ p ∈ ((ofInvite start).run ops).1.roster.active, p.address.sameParty a = false) :
    let room := ((ofInvite start).run ops).1
    let effects := (room.run (withdrawals a rounds)).2
    replies room (withdrawals a rounds) = List.replicate (2 * rounds) .done ∧
      (room.run (withdrawals a rounds)).1 =
        { room with sequence := room.sequence + 2 * rounds } ∧
      (notices effects).length = 2 * rounds ∧ (referrals effects).length = 2 * rounds ∧
      ∃ conference target, room.conference? = some conference ∧
        target = { conference with params := [⟨"text", none⟩] } ∧ target.uriParams = [] ∧
        effects = announced (some conference) room.sequence
          (List.replicate rounds [(.refer a target, .participantAdded a),
            (.refer a { target with uriParams := [⟨"method", some "BYE"⟩] },
              .participantRemoved a)]).flatten := by
  intro room effects
  obtain ⟨conference, hconference, hlive⟩ := (run_stage start ops).live hsome
  obtain ⟨p, hp, hadmin, -⟩ := (run_orderly start ops).exists_admin hsome
  have hadmits : Admits room conference a :=
    ⟨hlive, ⟨p, hp, hadmin⟩, Roster.find?_eq_none_iff.mpr hnew⟩
  obtain ⟨hreplies, hrun⟩ := hadmits.run_withdrawals rounds
  have heffects : effects =
      announced (some conference) room.sequence (dealings conference a rounds) := by
    rw [← hconference]
    exact congrArg Prod.snd hrun
  have hrefer : ∀ signal ∈ dealings conference a rounds, ∃ referTo, signal.1 = .refer a referTo :=
    fun _ => exists_refer_of_mem_dealings
  obtain ⟨hnotices, hreferrals⟩ := length_announced (some conference) room.sequence hrefer
  have hbare : conference.identity = conference := run_bareAddress hconference
  obtain ⟨hjoin, hleave⟩ := referTo_of_bare hbare
  refine ⟨hreplies, congrArg Prod.fst hrun, ?_, ?_, conference, _, hconference, rfl,
    (congrArg Address.uriParams hbare).symm, ?_⟩
  · rw [heffects, hnotices, length_dealings]
  · rw [heffects, hreferrals, length_dealings]
  · rw [heffects, dealings, requestTo, dismissalOf, hjoin, hleave]

/-- Bob has been taken out of Alice's room while he was connected, so that the
room waits for the end of his session; then he is invited three times. -/
theorem withdrawals_leave_no_trace_of_former :
    let party (name : String) : Address := { user? := some name, host := "localhost" }
    let call (session name : String) : Invite :=
      { session := ⟨session⟩, sender := party name, target := party "room"
        contact := party name }
    let ops : List Operation := [.establish (fun _ => false) (fun _ => "a") 1,
      .join (call "1" "alice"), .invite (party "bob"), .join (call "2" "bob"),
      .expel (party "bob")]
    let room := ((ofInvite (call "1" "alice")).run ops).1
    let bob : Address := { party "bob" with host := "LOCALHOST" }
    room.roster.active ≠ [] ∧ (∀ p ∈ room.roster.active, p.address.sameParty bob = false) ∧
      replies room (withdrawals bob 3) = [.done, .done, .done, .done, .done, .done] ∧
      (room.run (withdrawals bob 3)).1 = { room with sequence := 11 } ∧
      room.roster.removed =
        [{ address := party "bob", contact := party "bob", session? := some ⟨"2"⟩ }] := by
  intro party call ops room bob
  have hsome : room.roster.active ≠ [] := by decide +kernel
  have hnew : ∀ p ∈ room.roster.active, p.address.sameParty bob = false := by decide +kernel
  have hsequence : room.sequence = 5 := by decide +kernel
  have hremoved : room.roster.removed =
      [{ address := party "bob", contact := party "bob", session? := some ⟨"2"⟩ }] := by
    decide +kernel
  have htraceless := withdrawals_leave_no_trace (call "1" "alice") ops bob 3
  have hroom : ((ofInvite (call "1" "alice")).run ops).1 = room := rfl
  rw [hroom] at htraceless
  -- from here on the room is not to be computed again
  clear_value room
  obtain ⟨hreplies, hrun, -⟩ := htraceless hsome hnew
  rw [hsequence] at hrun
  exact ⟨hsome, hnew, hreplies, hrun, hremoved⟩

end Switchboard.Room
