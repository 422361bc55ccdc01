import Switchboard.Proofs.Room.Refusal
import Switchboard.Proofs.Room.Stage

/-!
# Requests of guests

A guest of a room is a party that is not its administrator, whether it takes
part or not. Whatever a guest asks for, the room keeps its shape: its subject,
who takes part and in which role, and whom it waits for. A guest that takes
part is connected anew, any other is declined, and a new invitation within a
session that is not the administrator's goes unheard.
-/

namespace Switchboard.Room

variable {r : Room} {request : Invite} {conference : Address} {p : Participant}

/-- No administrator of the room is of this party. -/
def IsGuest (r : Room) (a : Address) : Prop :=
  ∀ p ∈ r.roster.active, p.isAdmin = true → p.address.sameParty a = false

theorem IsGuest.isAdmin_of_find? (h : IsGuest r request.sender)
    (hfind : r.roster.find? request.sender = some p) : p.isAdmin = false := by
  have hparty : p.address.sameParty request.sender = true := by
    simpa using List.find?_some hfind
  by_contra hadmin
  rw [Bool.not_eq_false] at hadmin
  rw [h p (Roster.mem_of_find? hfind) hadmin] at hparty
  exact Bool.noConfusion hparty

/-! ## The shape of a room -/

/-- All that others see of a room is the same, and so is what the room has
told: only sessions and contacts of its participants may differ. -/
structure SameShape (r r' : Room) : Prop where
  state : r'.state = r.state
  subject : r'.subject = r.subject
  focus : r'.focus = r.focus
  conference : r'.conference? = r.conference?
  addresses : r'.roster.active.map (·.address) = r.roster.active.map (·.address)
  roles : r'.roster.active.map (·.isAdmin) = r.roster.active.map (·.isAdmin)
  removed : r'.roster.removed = r.roster.removed
  sequence : r'.sequence = r.sequence

theorem SameShape.refl (r : Room) : SameShape r r :=
  ⟨rfl, rfl, rfl, rfl, rfl, rfl, rfl, rfl⟩

theorem sameShape_connect (request : Invite) (r : Room) :
    SameShape r (connect request r).1 where
  state := rfl
  subject := rfl
  focus := rfl
  conference := rfl
  addresses := Roster.map_update fun _ => rfl
  roles := Roster.map_update fun _ => rfl
  removed := rfl
  sequence := rfl

/-- The participant of this party with a new session and contact, any other as
it is. -/
def connected (request : Invite) (p : Participant) : Participant :=
  if p.address.sameParty request.sender then
    { p with session? := some request.session, contact := request.contact }
  else p

theorem connect_active (h : Roster.Distinct r.roster.active) :
    (connect request r).1.roster.active = r.roster.active.map (connected request) := by
  rw [connect_roster]
  exact Roster.update_eq_map h

theorem map_connected_of_find?_eq_none (h : r.roster.find? request.sender = none) :
    r.roster.active.map (connected request) = r.roster.active := by
  have hsame : ∀ p ∈ r.roster.active, connected request p = p := by
    intro p hp
    unfold connected
    rw [if_neg (by simp [Roster.find?_eq_none_iff.mp h p hp])]
  rw [List.map_congr_left hsame, List.map_id']

/-! ## Joining as a guest -/

/-- A participant without the role is connected and accepted, and that is
all. -/
theorem join_of_guest (hlive : r.liveAddress? = some conference)
    (hfind : r.roster.find? request.sender = some p) (hp : p.isAdmin = false) :
    r.join request =
      (.ok (), (connect request r).1, [.accept request.session (focusContact conference)]) := by
  have hsome : r.roster.active ≠ [] := List.ne_nil_of_mem (Roster.mem_of_find? hfind)
  have hfirst : comeFirst request.sender r = (r, []) := comeFirst_of_ne_nil hsome
  rw [join_of_participant hlive (by rw [hfirst]; exact hfind), andThen_apply, hfirst, hp]
  rfl

theorem join_of_outsider (hlive : r.liveAddress? = some conference)
    (hsome : r.roster.active ≠ []) (hfind : r.roster.find? request.sender = none) :
    r.join request =
      (.error (.unknownParticipant request.sender), r, [.decline request.session .declined]) := by
  have hfirst : comeFirst request.sender r = (r, []) := comeFirst_of_ne_nil hsome
  rw [join_of_stranger hlive (by rw [hfirst]; exact hfind), hfirst]
  rfl

/-- Only the administrator is listened to within its session. -/
theorem updated_of_guest {session : Session}
    (h : ∀ p, r.roster.bySession? session = some p → p.isAdmin = false) :
    sessionChanged session (.updated request) r = (r, []) := by
  unfold sessionChanged
  cases hfind : r.roster.bySession? session with
  | none => rfl
  | some p =>
      dsimp only
      rw [h p hfind]
      rfl

/-- **Only the administrator shapes a room.** In a room where somebody takes
part, an invitation of anybody but the administrator keeps the shape of the
room, is told to nobody and is answered once, whatever it asks for: a
participant is accepted with a new session and contact, and an outsider is
declined, with nothing changed at all. A new invitation within a session does
nothing either, unless the first participant with that session is
administrator. -/
theorem only_administrator_shapes (invite : Invite) (ops : List Operation) :
    let room := ((ofInvite invite).run ops).1
    (∀ request, room.roster.active ≠ [] → IsGuest room request.sender →
      let after := (room.join request).2.1
      let effects := (room.join request).2.2
      SameShape room after ∧
        after.roster.active = room.roster.active.map (connected request) ∧
        notices effects = [] ∧
        ((∃ conference, room.conference? = some conference ∧
            (room.roster.find? request.sender).isSome ∧
            effects = [.accept request.session (focusContact conference)]) ∨
          (room.roster.find? request.sender = none ∧ after = room ∧
            effects = [.decline request.session .declined]))) ∧
      ∀ session request,
        (∀ p, room.roster.bySession? session = some p → p.isAdmin = false) →
          sessionChanged session (.updated request) room = (room, []) := by
  intro room
  refine ⟨?_, fun session request h => updated_of_guest h⟩
  intro request hsome hguest
  obtain ⟨conference, hconference, hlive⟩ := (run_stage invite ops).live hsome
  cases hfind : room.roster.find? request.sender with
  | none =>
      rw [join_of_outsider hlive hsome hfind]
      have hactive := map_connected_of_find?_eq_none hfind
      exact ⟨SameShape.refl room, hactive.symm, rfl, .inr ⟨rfl, rfl, rfl⟩⟩
  | some p =>
      rw [join_of_guest hlive hfind (hguest.isAdmin_of_find? hfind)]
      have hactive : (connect request room).1.roster.active =
          room.roster.active.map (connected request) :=
        connect_active (run_orderly invite ops).distinct
      exact ⟨sameShape_connect request room, hactive, rfl, .inl ⟨conference, hconference, rfl, rfl⟩⟩

/-- Alice has a room made and takes Bob into it; Bob calls again and wants
another subject. -/
theorem only_administrator_shapes_for_guest :
    let party (name : String) : Address := { user? := some name, host := "localhost" }
    let call (session name : String) : Invite :=
      { session := ⟨session⟩, sender := party name, target := party "room"
        contact := party name }
    let ops : List Operation := [.establish (fun _ => false) (fun _ => "a") 1,
      .join (call "1" "alice"), .invite (party "bob"), .join (call "2" "bob")]
    let room := ((ofInvite (call "1" "alice")).run ops).1
    let request : Invite := { call "3" "bob" with subject? := some "Lunch" }
    room.roster.active ≠ [] ∧ IsGuest room request.sender ∧
      SameShape room (room.join request).2.1 ∧ (room.join request).2.1.subject = "" ∧
      sessionChanged ⟨"2"⟩ (.updated request) room = (room, []) := by
  intro party call ops room request
  have hsome : room.roster.active ≠ [] := by decide +kernel
  have hguest : IsGuest room request.sender := by
    unfold IsGuest
    decide +kernel
  have hsubject : room.subject = "" := by decide +kernel
  have hrole : (room.roster.bySession? ⟨"2"⟩).map (·.isAdmin) = some false := by decide +kernel
  have hsession : ∀ p, room.roster.bySession? ⟨"2"⟩ = some p → p.isAdmin = false := by
    intro p hp
    rw [hp] at hrole
    simpa using hrole
  have hroom : ((ofInvite (call "1" "alice")).run ops).1 = room := rfl
  have hshapes := only_administrator_shapes (call "1" "alice") ops
  rw [hroom] at hshapes
  -- from here on the room is not to be computed again
  clear_value room
  obtain ⟨hshape, -⟩ := hshapes.1 request hsome hguest
  have hupdated := hshapes.2 ⟨"2"⟩ request hsession
  exact ⟨hsome, hguest, hshape, hshape.subject.trans hsubject, hupdated⟩

end Switchboard.Room
