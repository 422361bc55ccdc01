import Switchboard.ResourceList
import Switchboard.Room.Membership

/-!
# Requests of participants

The first participant to join is administrator, and the requests of the
administrator alone shape the room: they set its subject and name parties to
invite. Everybody else may only join, once invited.
-/

namespace Switchboard.Room

/-- Addresses that a request asks to add; none when it carries no readable
recipient list. -/
def Invite.recipients (invite : Invite) : List Address :=
  match invite.body? with
  | none => []
  | some body =>
    if body.isRecipientList then (ResourceList.parse? body.body).getD [] else []

/-- Does what an administrator's request asks for: subject first, then
participants. -/
def comply (request : Invite) : Change :=
  Change.andThen
    (match request.subject? with
      | some subject => setSubject subject
      | none => Change.none)
    fun r => (inviteAll request.recipients r).2

/-- Takes the session and the contact of a participant from its request. -/
def connect (request : Invite) : Change := fun r =>
  ({ r with roster := r.roster.modify request.sender fun p =>
      { p with session? := some request.session, contact := request.contact } }, [])

/-- Answers an invitation to the room. The first sender becomes
administrator; later ones have to be participants already. -/
def join (request : Invite) (r : Room) : Except Error Unit × Room × List Effect :=
  match r.liveAddress? with
  | none =>
    (.error (.invalidState r.state), emit (.decline request.session .notAcceptable) r)
  | some conference =>
    let first : Change :=
      if r.roster.active = [] then
        enter { Participant.ofAddress request.sender with isAdmin := true }
      else Change.none
    let (r₁, effects₁) := first r
    match r₁.roster.find? request.sender with
    | none =>
      (.error (.unknownParticipant request.sender), r₁,
        effects₁ ++ [.decline request.session .declined])
    | some p =>
      let rest : Change := Change.sequence [connect request,
        emit (.accept request.session (focusContact conference)),
        if p.isAdmin then comply request else Change.none]
      let (r₂, effects₂) := rest r₁
      (.ok (), r₂, effects₁ ++ effects₂)

/-- Acts on what became of a session. A new invitation within it counts only
if it is the administrator's. -/
def sessionChanged (session : Session) (change : SessionChange) : Change := fun r =>
  match change with
  | .connected => (r, [])
  | .updated request =>
    match r.roster.bySession? session with
    | some p => if p.isAdmin then comply request r else (r, [])
    | none => (r, [])
  | .ended =>
    let leave : Change := match r.roster.bySession? session with
      | some p => depart p.address
      | none => Change.none
    (Change.andThen leave fun r => ({ r with roster := r.roster.discard session }, [])) r

end Switchboard.Room
