import Switchboard.Proofs.Room.Roster
import Switchboard.Room.Request

/-!
# What changes do to the roster

Each change of a room is a change of its roster, or none: notices, states and
subjects leave the participants alone. What joins several changes into one
(a departure, a transfer) is stated here as one map of the roster.
-/

namespace Switchboard.Room

variable {r : Room} {a : Address} {p : Participant}

/-! ## Changes in a row -/

theorem andThen_apply (first second : Change) (r : Room) :
    first.andThen second r =
      ((second (first r).1).1, (first r).2 ++ (second (first r).1).2) := rfl

@[simp] theorem sequence_nil (r : Room) : Change.sequence [] r = (r, []) := rfl

@[simp] theorem sequence_cons (first : Change) (rest : List Change) :
    Change.sequence (first :: rest) = first.andThen (Change.sequence rest) := rfl

/-! ## Single changes -/

@[simp] theorem emit_fst (effect : Effect) (r : Room) : (emit effect r).1 = r := rfl

@[simp] theorem notify_roster (event : Event) (r : Room) :
    (notify event r).1.roster = r.roster := rfl

@[simp] theorem setState_roster (state : State) (r : Room) :
    (setState state r).1.roster = r.roster := by
  unfold setState
  split <;> rfl

@[simp] theorem setSubject_roster (subject : String) (r : Room) :
    (setSubject subject r).1.roster = r.roster := by
  unfold setSubject
  split <;> rfl

@[simp] theorem enter_roster (p : Participant) (r : Room) :
    (enter p r).1.roster = r.roster.add p := rfl

@[simp] theorem connect_roster (request : Invite) (r : Room) :
    (connect request r).1.roster = r.roster.modify request.sender fun p =>
      { p with session? := some request.session, contact := request.contact } := rfl

theorem setAdmin_roster (a : Address) (isAdmin : Bool) (r : Room) :
    (setAdmin a isAdmin r).1.roster = r.roster.modify a fun p => { p with isAdmin } := by
  unfold setAdmin
  cases hfind : r.roster.find? a with
  | none =>
      rw [Roster.modify_eq_self]
      intro p hp
      rw [hfind] at hp
      exact absurd hp (by simp)
  | some p =>
      by_cases hp : p.isAdmin = isAdmin
      · simp only [hp, if_true]
        rw [Roster.modify_eq_self]
        intro q hq
        rw [hfind, Option.some.injEq] at hq
        rw [← hq, ← hp]
      · simp only [hp, if_false]
        rfl

/-! ## Joining -/

/-- The first sender to come becomes a participant, as administrator. -/
def comeFirst (sender : Address) : Change := fun r =>
  (if r.roster.active = [] then enter { Participant.ofAddress sender with isAdmin := true }
    else Change.none) r

/-- A sender that takes part is connected and answered, and what it asks for
is done if it is administrator. -/
def receive (request : Invite) (conference : Address) (isAdmin : Bool) : Change :=
  Change.sequence [connect request,
    emit (.accept request.session (focusContact conference)),
    if isAdmin then comply request else Change.none]

theorem join_of_none {request : Invite} (h : r.liveAddress? = none) :
    r.join request = (.error (.invalidState r.state), r,
      [.decline request.session .notAcceptable]) := by
  unfold join
  rw [h]
  rfl

theorem join_of_stranger {request : Invite} {conference : Address}
    (h : r.liveAddress? = some conference)
    (hfind : (comeFirst request.sender r).1.roster.find? request.sender = none) :
    r.join request = (.error (.unknownParticipant request.sender),
      (comeFirst request.sender r).1,
      (comeFirst request.sender r).2 ++ [.decline request.session .declined]) := by
  unfold comeFirst at hfind
  unfold join
  rw [h]
  dsimp only
  rw [hfind]
  rfl

theorem join_of_participant {request : Invite} {conference : Address}
    (h : r.liveAddress? = some conference)
    (hfind : (comeFirst request.sender r).1.roster.find? request.sender = some p) :
    r.join request = (.ok (),
      (comeFirst request.sender).andThen (receive request conference p.isAdmin) r) := by
  unfold comeFirst at hfind
  unfold join
  rw [h]
  dsimp only
  rw [hfind]
  rfl

@[simp] theorem comeFirst_live (sender : Address) (r : Room) :
    (comeFirst sender r).1.liveAddress? = r.liveAddress? := by
  unfold comeFirst
  split <;> rfl

/-! ## Departures -/

@[simp] theorem delete_roster (r : Room) : (delete r).1.roster = r.roster := by
  unfold delete
  split
  · rfl
  · rw [andThen_apply]
    simp

theorem settle_roster (r : Room) : (settle r).1.roster = r.roster.settled := by
  unfold settle Roster.settled
  cases hactive : r.roster.active with
  | nil => simp
  | cons oldest rest =>
      dsimp only
      by_cases hadmin : (oldest :: rest).any (·.isAdmin) = true
      · rw [if_pos hadmin, if_pos hadmin]
      · rw [if_neg hadmin, if_neg hadmin]
        rw [setAdmin_roster, Roster.modify, hactive, Roster.update,
          if_pos (Address.sameParty_refl oldest.address)]

theorem depart_roster (h : (r.roster.find? a).isSome) :
    (depart a r).1.roster = (r.roster.remove a).settled := by
  obtain ⟨p, hp⟩ := Option.isSome_iff_exists.mp h
  unfold depart
  rw [hp]
  simp only [andThen_apply]
  rw [settle_roster, notify_roster]

/-! ## Transfers -/

theorem setAdmins_removed (isAdmin : Bool) (as : List Address) (r : Room) :
    (Change.sequence (as.map fun a => setAdmin a isAdmin) r).1.roster.removed =
      r.roster.removed := by
  induction as generalizing r with
  | nil => rfl
  | cons a as ih =>
      rw [List.map_cons, sequence_cons, andThen_apply]
      rw [ih, setAdmin_roster, Roster.modify_removed]

theorem distinct_setAdmin (a : Address) (isAdmin : Bool) (h : Roster.Distinct r.roster.active) :
    Roster.Distinct (setAdmin a isAdmin r).1.roster.active := by
  refine h.of_map_eq ?_
  rw [setAdmin_roster]
  exact Roster.map_update fun _ => rfl

/-- The participants of some of these parties have the role set, all others
keep theirs. -/
theorem setAdmins_active (h : Roster.Distinct r.roster.active) (isAdmin : Bool)
    (as : List Address) :
    (Change.sequence (as.map fun a => setAdmin a isAdmin) r).1.roster.active =
      r.roster.active.map fun p =>
        if as.any (fun a => p.address.sameParty a) then { p with isAdmin } else p := by
  induction as generalizing r with
  | nil => simp
  | cons a as ih =>
      have hone : (setAdmin a isAdmin r).1.roster.active =
          r.roster.active.map fun p =>
            if p.address.sameParty a then { p with isAdmin } else p := by
        rw [setAdmin_roster]
        exact Roster.update_eq_map h
      rw [List.map_cons, sequence_cons, andThen_apply]
      rw [ih (distinct_setAdmin a isAdmin h), hone, List.map_map]
      apply List.map_congr_left
      intro p _
      by_cases hp : p.address.sameParty a = true
      · by_cases hq : (as.any fun a => p.address.sameParty a) = true <;> simp [hp, hq]
      · simp [hp]

theorem transferAdmin_of_find? (h : r.roster.find? a = some p) :
    r.transferAdmin a = (.ok (), Change.andThen (setAdmin a true)
      (Change.sequence ((r.roster.otherAdmins a).map fun b => setAdmin b false)) r) := by
  unfold transferAdmin
  rw [h]
  rfl

/-- After a transfer the participant of this party is administrator, and
nobody else. -/
theorem transferAdmin_active (h : Roster.Distinct r.roster.active)
    (hfind : (r.roster.find? a).isSome) :
    (r.transferAdmin a).2.1.roster.active =
      r.roster.active.map fun p => { p with isAdmin := p.address.sameParty a } := by
  obtain ⟨successor, hs⟩ := Option.isSome_iff_exists.mp hfind
  have hfirst := setAdmins_active h true [a]
  simp only [List.map_cons, List.map_nil, sequence_cons, sequence_nil, andThen_apply,
    List.any_cons, List.any_nil, Bool.or_false] at hfirst
  rw [transferAdmin_of_find? hs, andThen_apply]
  rw [setAdmins_active (distinct_setAdmin a true h), hfirst, List.map_map]
  apply List.map_congr_left
  intro p hp
  rw [Function.comp_apply]
  by_cases hparty : p.address.sameParty a = true
  · simp [hparty, Roster.any_otherAdmins_of_sameParty hparty]
  · rw [Bool.not_eq_true] at hparty
    by_cases hadmin : p.isAdmin = true
    · simp [hparty, Roster.any_otherAdmins_of_admin hp hadmin hparty]
    -- whoever is not administrator keeps the role unset, listed among them or not
    · have hsame : { p with isAdmin := false } = p := by
        rw [Bool.not_eq_true] at hadmin
        rw [← hadmin]
      simp [hparty, hsame]

theorem transferAdmin_removed (a : Address) (r : Room) :
    (r.transferAdmin a).2.1.roster.removed = r.roster.removed := by
  unfold transferAdmin
  split
  · rfl
  · simp only [andThen_apply]
    rw [setAdmins_removed, setAdmin_roster, Roster.modify_removed]

end Switchboard.Room
