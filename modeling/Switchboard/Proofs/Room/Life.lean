import Mathlib.Data.List.Induction
import Switchboard.Proofs.Latest
import Switchboard.Proofs.Room.Refusal
import Switchboard.Proofs.Room.Stage

/-!
# The life of a room

A room is instantiated, searches for its address, is created with one and is
terminated once its last participant has gone, or is terminated at once when
no address is free. Somebody takes part in it exactly from the first
invitation that it accepts until its end, and after its end nobody ever does.
-/

namespace Switchboard.Room

variable {r : Room} {a : Address} {op : Operation} {ops : List Operation}
  {out : Room × List Effect}

theorem run_snoc (r : Room) (ops : List Operation) (op : Operation) :
    (r.run (ops ++ [op])).1 = ((r.run ops).1.step op).2.1 := by
  rw [run_append, run_cons, run_nil]

/-! ## Rooms where nobody is -/

theorem find?_of_nobody (h : r.roster.active = []) : r.roster.find? a = none := by
  simp [Roster.find?, h]

theorem bySession?_of_nobody (h : r.roster.active = []) (session : Session) :
    r.roster.bySession? session = none := by
  simp [Roster.bySession?, h]

theorem inviteAll_of_nobody (as : List Address) (h : r.roster.active = []) :
    (inviteAll as r).2 = (r, []) :=
  inviteAll_of_not_canInvite as fun hcan => hcan.2 h

theorem expel_of_nobody (h : r.roster.active = []) : (r.expel a).2 = (r, []) := by
  unfold expel
  rw [find?_of_nobody h]
  split <;> rfl

theorem transferAdmin_of_nobody (h : r.roster.active = []) : (r.transferAdmin a).2 = (r, []) := by
  unfold transferAdmin
  rw [find?_of_nobody h]

/-- The end of a session is nobody's departure then, and only a removed
participant is forgotten. -/
theorem sessionChanged_of_nobody (h : r.roster.active = []) (session : Session)
    (change : SessionChange) :
    (sessionChanged session change r).1.state = r.state ∧
      (sessionChanged session change r).1.roster.active = [] := by
  unfold sessionChanged
  rw [bySession?_of_nobody h]
  cases change with
  | connected => exact ⟨rfl, h⟩
  | updated request => exact ⟨rfl, h⟩
  | ended => exact ⟨rfl, h⟩

theorem deliveries_roster (conference : Address) (content : Content)
    (recipients : List Participant) (r : Room) :
    (Change.sequence (recipients.map (deliver conference content)) r).1.roster = r.roster := by
  induction recipients generalizing r with
  | nil => rfl
  | cons p rest ih =>
      rw [List.map_cons, sequence_cons, andThen_apply]
      exact ih _

theorem dispatch_roster (sender : Address) (content : Content) (r : Room) :
    (r.dispatch sender content).2.1.roster = r.roster := by
  unfold dispatch
  split
  · rfl
  · exact deliveries_roster _ content _ r

theorem relay_roster (message : IncomingMessage) (r : Room) :
    (r.relay message).2.1.roster = r.roster := by
  unfold relay
  split
  · rfl
  · split
    · rfl
    · exact dispatch_roster message.sender message.content r

theorem comply_of_nobody (request : Invite) (h : r.roster.active = []) :
    (comply request r).1.roster.active = [] := by
  have hsubject : ∀ change : Change, (∀ r, (change r).1.roster = r.roster) →
      (change.andThen (fun r => (inviteAll request.recipients r).2) r).1.roster.active = [] := by
    intro change hroster
    have hempty : (change r).1.roster.active = [] := by rw [hroster, h]
    rw [andThen_apply, inviteAll_of_nobody _ hempty]
    exact hempty
  unfold comply
  cases request.subject? with
  | none => exact hsubject _ fun _ => rfl
  | some subject => exact hsubject _ fun _ => setSubject_roster subject _

/-- Nobody comes but through an invitation that is accepted. -/
theorem step_active_of_nobody (h : r.roster.active = [])
    (hop : ∀ request, op = .join request → (r.join request).1 ≠ .ok ()) :
    (r.step op).2.1.roster.active = [] := by
  cases op with
  | establish taken tokens attempts =>
      rw [step_establish, establish_roster, h]
  | join request =>
      cases hresult : (r.join request).1 with
      | ok _ => exact absurd hresult (hop request rfl)
      | error e =>
          obtain ⟨reason, hout⟩ := join_of_error hresult
          show (r.join request).2.1.roster.active = []
          rw [hout, h]
  | comply request => exact comply_of_nobody request h
  | invite a =>
      show (r.invite a).2.1.roster.active = []
      rw [invite_of_not_canInvite fun hcan => hcan.2 h, h]
  | inviteAll as =>
      show (inviteAll as r).2.1.roster.active = []
      rw [inviteAll_of_nobody as h, h]
  | expel a =>
      show (r.expel a).2.1.roster.active = []
      rw [expel_of_nobody h, h]
  | transferAdmin a =>
      show (r.transferAdmin a).2.1.roster.active = []
      rw [transferAdmin_of_nobody h, h]
  | setSubject subject =>
      show (setSubject subject r).1.roster.active = []
      rw [setSubject_roster, h]
  | dispatch sender content =>
      show (r.dispatch sender content).2.1.roster.active = []
      rw [dispatch_roster, h]
  | relay message =>
      show (r.relay message).2.1.roster.active = []
      rw [relay_roster, h]
  | sessionChanged session change => exact (sessionChanged_of_nobody h session change).2

/-- The state stays as it is, but for a search. -/
theorem step_state_of_nobody (h : r.roster.active = [])
    (hop : ∀ taken tokens attempts, op ≠ .establish taken tokens attempts) :
    (r.step op).2.1.state = r.state := by
  cases op with
  | establish taken tokens attempts => exact absurd rfl (hop taken tokens attempts)
  | join request => exact (calm_of_visits (visits_join request r)).state
  | comply request => exact (calm_of_visits (visits_comply request r)).state
  | invite a => exact (calm_of_visits (visits_invite a r)).state
  | inviteAll as => exact (calm_of_visits (visits_inviteAll as r)).state
  | expel a =>
      show (r.expel a).2.1.state = r.state
      rw [expel_of_nobody h]
  | transferAdmin a => exact (Calm.transferAdmin a r).state
  | setSubject subject => exact (Visit.setSubject r subject).calm.state
  | dispatch sender content => exact (calm_of_visits (visits_dispatch sender content r)).state
  | relay message => exact (calm_of_visits (visits_relay message r)).state
  | sessionChanged session change => exact (sessionChanged_of_nobody h session change).1

/-! ## Rooms that are left -/

theorem delete_state (r : Room) : (delete r).1.state = .terminated := by
  unfold delete
  by_cases h : r.state = .terminated
  · rw [if_pos h]
    exact h
  · rw [if_neg h, andThen_apply]
    unfold setState
    rw [if_neg h]
    rfl

theorem settle_of_nobody (h : r.roster.active = []) : settle r = delete r := by
  unfold settle
  rw [h]

theorem depart_of_find? {p : Participant} (h : r.roster.find? a = some p) :
    depart a r = (notify (.participantRemoved p.address)).andThen settle
      { r with roster := r.roster.remove a } := by
  unfold depart
  rw [h]

/-- The departure of the last participant ends the room. -/
theorem depart_state_of_nobody (hfind : (r.roster.find? a).isSome)
    (h : (depart a r).1.roster.active = []) : (depart a r).1.state = .terminated := by
  have hempty : (r.roster.remove a).active = [] := by
    by_contra hsome
    rw [depart_roster hfind] at h
    exact Roster.settled_ne_nil_iff.mpr hsome h
  obtain ⟨p, hp⟩ := Option.isSome_iff_exists.mp hfind
  rw [depart_of_find? hp, andThen_apply, settle_of_nobody (by simpa using hempty)]
  exact delete_state _

theorem setAdmins_length (as : List Address) (isAdmin : Bool) (r : Room) :
    (Change.sequence (as.map fun a => setAdmin a isAdmin) r).1.roster.active.length =
      r.roster.active.length := by
  induction as generalizing r with
  | nil => rfl
  | cons a as ih =>
      rw [List.map_cons, sequence_cons, andThen_apply]
      rw [ih, setAdmin_roster]
      exact length_update _ a _

theorem transferAdmin_length (a : Address) (r : Room) :
    (r.transferAdmin a).2.1.roster.active.length = r.roster.active.length := by
  cases hfind : r.roster.find? a with
  | none =>
      unfold transferAdmin
      rw [hfind]
  | some p =>
      rw [transferAdmin_of_find? hfind, andThen_apply]
      rw [setAdmins_length, setAdmin_roster]
      exact length_update _ a _

theorem depart_length (a : Address) (r : Room) :
    r.roster.active.length ≤ (depart a r).1.roster.active.length + 1 := by
  cases hfind : r.roster.find? a with
  | none =>
      unfold depart
      rw [hfind]
      exact Nat.le_succ _
  | some p =>
      have haddresses := Roster.settled_addresses (r := r.roster.remove a)
      have hsettled := congrArg List.length haddresses
      rw [List.length_map, List.length_map] at hsettled
      have herase : r.roster.active.length - 1 ≤ (r.roster.remove a).active.length := by
        rw [Roster.remove_active]
        exact List.le_length_eraseP
      rw [depart_roster (by simp [hfind]), hsettled]
      omega

theorem expel_length (a : Address) (r : Room) :
    r.roster.active.length ≤ (r.expel a).2.1.roster.active.length + 1 := by
  unfold expel
  split
  · exact Nat.le_succ _
  · split
    · exact Nat.le_succ _
    · exact depart_length a r

theorem sessionChanged_length (session : Session) (change : SessionChange) (r : Room) :
    r.roster.active.length ≤ (sessionChanged session change r).1.roster.active.length + 1 := by
  unfold sessionChanged
  cases change with
  | connected => exact Nat.le_succ _
  | updated request =>
      dsimp only
      split
      · split
        · exact Nat.le_succ_of_le (visits_length_le (visits_comply request r))
        · exact Nat.le_succ _
      · exact Nat.le_succ _
  | ended =>
      dsimp only
      rw [andThen_apply]
      cases r.roster.bySession? session with
      | none => exact Nat.le_succ _
      | some p => exact depart_length p.address r

/-- One operation takes out one participant at most. -/
theorem step_length (r : Room) (op : Operation) :
    r.roster.active.length ≤ (r.step op).2.1.roster.active.length + 1 := by
  have hvisits : ∀ {out : Room × List Effect}, Chain Visit r out →
      r.roster.active.length ≤ out.1.roster.active.length + 1 := by
    intro out h
    exact Nat.le_succ_of_le (visits_length_le h)
  cases op with
  | establish taken tokens attempts =>
      rw [step_establish, establish_roster]
      exact Nat.le_succ _
  | join request => exact hvisits (visits_join request r)
  | comply request => exact hvisits (visits_comply request r)
  | invite a => exact hvisits (visits_invite a r)
  | inviteAll as => exact hvisits (visits_inviteAll as r)
  | expel a => exact expel_length a r
  | transferAdmin a => exact Nat.le_succ_of_le (Nat.le_of_eq (transferAdmin_length a r).symm)
  | setSubject subject => exact hvisits (.single (.setSubject r subject))
  | dispatch sender content => exact hvisits (visits_dispatch sender content r)
  | relay message => exact hvisits (visits_relay message r)
  | sessionChanged session change => exact sessionChanged_length session change r

/-- Somebody stays, or the room has ended; and it ends for good. -/
structure Deserts (r : Room) (out : Room × List Effect) : Prop where
  left : r.roster.active ≠ [] → out.1.roster.active ≠ [] ∨ out.1.state = .terminated
  ended : r.state = .terminated → out.1.state = .terminated

theorem Deserts.trans {first last : Room × List Effect} (h : Deserts r first)
    (hlast : Deserts first.1 last) : Deserts r (last.1, first.2 ++ last.2) where
  left := by
    intro hsome
    rcases h.left hsome with hfirst | hended
    · exact hlast.left hfirst
    · exact .inr (hlast.ended hended)
  ended := fun hended => hlast.ended (h.ended hended)

theorem Settles.ended (h : Settles r out) (hr : r.state = .terminated) :
    out.1.state = .terminated := by
  rcases h with h | h
  · exact h.state.trans hr
  · exact h.state

theorem Move.deserts (h : Move r out) : Deserts r out := by
  have hended : r.state = .terminated → out.1.state = .terminated := by
    intro hr
    exact (h.settles (by simp [hr])).ended hr
  refine ⟨?_, hended⟩
  intro hsome
  cases h with
  | visit h => exact .inl (visits_ne_nil (.single h) hsome)
  | establish taken tokens attempts _ =>
      rw [establish_roster]
      exact .inl hsome
  | depart a hfind =>
      by_cases hempty : (Room.depart a r).1.roster.active = []
      · exact .inr (depart_state_of_nobody hfind hempty)
      · exact .inl hempty
  | transfer a _ =>
      left
      rw [← List.length_pos_iff, transferAdmin_length]
      exact List.length_pos_iff.mpr hsome
  | forget session => exact .inl hsome

theorem step_deserts (r : Room) (op : Operation) : Deserts r (r.step op).2 :=
  (moves_step r op).lift (fun _ => ⟨.inl, id⟩) (fun _ _ _ => Deserts.trans)
    fun _ _ => Move.deserts

/-! ## Who takes part when -/

/-- Some invitation to the room is accepted in the history. -/
def Joined (r : Room) (ops : List Operation) : Prop :=
  ∃ earlier request later, ops = earlier ++ .join request :: later ∧
    ((r.run earlier).1.join request).1 = .ok ()

theorem joined_snoc : Joined r (ops ++ [op]) ↔ Joined r ops ∨
    ∃ request, op = .join request ∧ ((r.run ops).1.join request).1 = .ok () := by
  constructor
  · rintro ⟨earlier, request, later, heq, hok⟩
    rcases Latest.snoc_eq_split_iff.mp heq with ⟨rfl, rfl, rfl⟩ | ⟨later, rfl, rfl⟩
    · exact .inr ⟨request, rfl, hok⟩
    · exact .inl ⟨earlier, request, later, rfl, hok⟩
  · rintro (⟨earlier, request, later, rfl, hok⟩ | ⟨request, rfl, hok⟩)
    · exact ⟨earlier, request, later ++ [op], by simp, hok⟩
    · exact ⟨ops, request, [], rfl, hok⟩

/-- Somebody takes part exactly from the first invitation accepted until the
end of the room. -/
theorem run_active_ne_nil_iff (invite : Invite) (ops : List Operation) :
    ((ofInvite invite).run ops).1.roster.active ≠ [] ↔
      Joined (ofInvite invite) ops ∧ ((ofInvite invite).run ops).1.state ≠ .terminated := by
  induction ops using List.reverseRecOn with
  | nil =>
      constructor
      · intro h
        exact absurd rfl h
      · rintro ⟨⟨earlier, request, later, heq, -⟩, -⟩
        exact absurd heq (by simp)
  | append_singleton ops op ih =>
      have hstage := run_stage invite (ops ++ [op])
      have hdeserts := step_deserts ((ofInvite invite).run ops).1 op
      rw [run_snoc] at hstage ⊢
      constructor
      · intro hsome
        have hcreated := hstage.created hsome
        refine ⟨joined_snoc.mpr ?_, by simp [hcreated]⟩
        by_cases hempty : ((ofInvite invite).run ops).1.roster.active = []
        -- from an empty room, only an accepted invitation gets here
        · right
          by_contra hnone
          apply hsome
          apply step_active_of_nobody hempty
          intro request hop hok
          exact hnone ⟨request, hop, hok⟩
        · exact .inl (ih.mp hempty).1
      · rintro ⟨hjoined, hstate⟩
        rcases joined_snoc.mp hjoined with hjoined | ⟨request, rfl, hok⟩
        · have hbefore : ((ofInvite invite).run ops).1.state ≠ .terminated :=
            fun hended => hstate (hdeserts.ended hended)
          rcases hdeserts.left (ih.mpr ⟨hjoined, hbefore⟩) with hsome | hended
          · exact hsome
          · exact absurd hended hstate
        · exact (join_of_ok hok).2

/-! ## The end -/

/-- The search ends a room only when every candidate is taken. -/
theorem establish_ends {taken : Address → Bool} {tokens : Nat → String} {attempts : Nat}
    {states : List State} (hs : Stage r states) (hr : r.state ≠ .terminated)
    (hend : (r.step (.establish taken tokens attempts)).2.1.state = .terminated) :
    (r.step (.establish taken tokens attempts)).1 = .refused (.noFreeAddress attempts) ∧
      (∀ i < attempts, taken (candidate r.focus (tokens i)) = true) ∧
      (r.step (.establish taken tokens attempts)).2.1.conference? = none := by
  rw [step_establish] at hend ⊢
  by_cases hstate : r.state = .instantiated
  · cases hfree : r.freeCandidate? taken tokens attempts with
    | none =>
        refine ⟨?_, ?_, ?_⟩
        · unfold step
          dsimp only
          rw [establish_of_taken hstate hfree]
        · intro i hi
          have htaken := firstFree_eq_none_iff.mp hfree i (Nat.zero_le i) (by omega)
          simpa using htaken
        · rw [establish_of_taken hstate hfree]
          exact hs.conference_eq_none hstate
    | some i =>
        rw [establish_of_free hstate hfree] at hend
        exact absurd hend (by simp [established])
  · rw [establish_of_ne hstate] at hend
    exact absurd hend hr

/-- A room ends because its search fails or because its last participant
goes. -/
theorem step_ends {states states' : List State} (hs : Stage r states)
    (hs' : Stage (r.step op).2.1 states') (hr : r.state ≠ .terminated)
    (hend : (r.step op).2.1.state = .terminated) :
    (∃ taken tokens attempts, op = .establish taken tokens attempts ∧
      (r.step op).1 = .refused (.noFreeAddress attempts) ∧
      (∀ i < attempts, taken (candidate r.focus (tokens i)) = true) ∧
      (r.step op).2.1.conference? = none) ∨
    ∃ p, r.roster.active = [p] ∧ (r.step op).2.1.roster.active = [] := by
  by_cases hempty : r.roster.active = []
  · left
    by_cases hsearch : ∃ taken tokens attempts, op = .establish taken tokens attempts
    · obtain ⟨taken, tokens, attempts, rfl⟩ := hsearch
      exact ⟨taken, tokens, attempts, rfl, establish_ends hs hr hend⟩
    · have hstate := step_state_of_nobody hempty fun taken tokens attempts hop =>
        hsearch ⟨taken, tokens, attempts, hop⟩
      exact absurd (hstate.symm.trans hend) hr
  · right
    have hnobody := hs'.nobody (by simp [hend])
    have hlength := step_length r op
    rw [hnobody, List.length_nil] at hlength
    have hpos := List.length_pos_iff.mpr hempty
    obtain ⟨p, hp⟩ := List.length_eq_one_iff.mp (Nat.le_antisymm hlength hpos)
    exact ⟨p, hp, hnobody⟩

theorem run_conference (hr : r.state ≠ .instantiated) (ops : List Operation) :
    (r.run ops).1.conference? = r.conference? := by
  rcases (moves_run r ops).settles hr with h | h
  · exact h.conference
  · exact h.conference

/-- A room has its address for good, whatever happened before. -/
theorem run_keeps_address {invite : Invite}
    (ha : ((ofInvite invite).run ops).1.conference? = some a) (more : List Operation) :
    (((ofInvite invite).run ops).1.run more).1.conference? = some a := by
  have hstate : ((ofInvite invite).run ops).1.state ≠ .instantiated := by
    intro hstate
    rw [(run_stage invite ops).conference_eq_none hstate] at ha
    exact absurd ha (by simp)
  rw [run_conference hstate, ha]

/-- While a room has no address nobody has taken part in it. -/
theorem run_nobody_of_no_address {invite : Invite} {more : List Operation}
    (hnone : ((ofInvite invite).run (ops ++ more)).1.conference? = none) :
    ((ofInvite invite).run ops).1.roster.active = [] := by
  by_contra hsome
  have hstage := run_stage invite ops
  obtain ⟨a, ha⟩ := Option.isSome_iff_exists.mp
    (hstage.conference_isSome (hstage.created hsome))
  rw [run_append, run_keeps_address ha more] at hnone
  exact absurd hnone (by simp)

theorem run_terminated (hr : r.state = .terminated) (ops : List Operation) :
    (r.run ops).1.state = .terminated :=
  ((moves_run r ops).settles (by simp [hr])).ended hr

/-- **The life of a room.** After any history the room is at one of four
stages, which say what states it has gone through and whether it has an
address. An address is kept for good. Somebody takes part exactly from the
first invitation accepted until the end; whoever takes part finds an address,
and while there is none nobody has ever taken part. The room ends only when
its search for an address fails or its last participant goes, and then it has
ended for good. -/
theorem life_of_a_room (invite : Invite) (ops : List Operation) :
    let start := ofInvite invite
    let room := (start.run ops).1
    Stage room (toldStates (notices (start.run ops).2)) ∧
      (∀ a more, room.conference? = some a → (room.run more).1.conference? = some a) ∧
      (room.roster.active ≠ [] ↔ Joined start ops ∧ room.state ≠ .terminated) ∧
      (room.roster.active ≠ [] → room.conference?.isSome) ∧
      (room.conference? = none → ∀ earlier later, ops = earlier ++ later →
        (start.run earlier).1.roster.active = []) ∧
      (∀ op, room.state ≠ .terminated → (room.step op).2.1.state = .terminated →
        (∃ taken tokens attempts, op = .establish taken tokens attempts ∧
          (room.step op).1 = .refused (.noFreeAddress attempts) ∧
          (∀ i < attempts, taken (candidate room.focus (tokens i)) = true) ∧
          (room.step op).2.1.conference? = none) ∨
        ∃ p, room.roster.active = [p] ∧ (room.step op).2.1.roster.active = []) ∧
      (room.state = .terminated → ∀ more,
        (room.run more).1.state = .terminated ∧ (room.run more).1.roster.active = []) := by
  have hstage := run_stage invite ops
  refine ⟨hstage, fun a more ha => run_keeps_address ha more, run_active_ne_nil_iff invite ops,
    ?_, ?_, ?_, ?_⟩
  · intro hsome
    exact hstage.conference_isSome (hstage.created hsome)
  · rintro hnone earlier later rfl
    exact run_nobody_of_no_address hnone
  · intro op hstate hend
    have hnext := run_stage invite (ops ++ [op])
    rw [run_snoc] at hnext
    exact step_ends hstage hnext hstate hend
  · intro hended more
    have hmore := run_terminated hended more
    have hlater := run_stage invite (ops ++ more)
    rw [run_append] at hlater
    exact ⟨hmore, hlater.nobody (by simp [hmore])⟩

end Switchboard.Room
