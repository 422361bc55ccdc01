import Switchboard.Address.Printer
import Switchboard.Room.Capabilities
import Switchboard.Room.Roster
import Switchboard.Text.Numeral

/-!
# Rooms

A room is a focus with an address of its own and the participants that the
focus connects. Until it has its address it takes nobody, and once it is
terminated nobody any more.
-/

namespace Switchboard

structure Room where
  state : Room.State := .instantiated
  subject : String := ""
  /-- The focus itself, reached through its creator's session. -/
  focus : Room.Participant
  conference? : Option Address := none
  roster : Room.Roster := {}
  /-- Number of the last notice. -/
  sequence : Nat := 0
  deriving DecidableEq, Repr

namespace Room

inductive Error
  /-- The room cannot do this in its state. -/
  | invalidState (state : State)
  | unknownParticipant (address : Address)
  /-- Every address tried for the room was taken. -/
  | noFreeAddress (attempts : Nat)
  deriving DecidableEq, Repr

def Error.message : Error → String
  | invalidState state => "Invalid chat room state: " ++ state.label
  | unknownParticipant address => "Unknown participant: " ++ address.text
  | noFreeAddress attempts =>
    "No free conference address after " ++ String.ofList (Text.decimal attempts) ++ " attempts"

/-- A room is a conference, and nothing else. -/
def capabilities : Capabilities :=
  .conference

/-- A room for this invitation, not yet reachable. -/
def ofInvite (invite : Invite) : Room where
  subject := invite.subject?.getD ""
  focus := { Participant.ofAddress invite.target with session? := some invite.session }

def isTerminated (r : Room) : Bool :=
  r.state = .terminated

def admin? (r : Room) : Option Participant :=
  r.roster.admins.head?

/-- Some participant of the room, the focus included, holds this session. -/
def ownsSession (r : Room) (s : Session) : Bool :=
  r.focus.session? = some s || (r.roster.bySession? s).isSome
    || (r.roster.removedBySession? s).isSome

/-- The conference address of a room that takes participants. -/
def liveAddress? (r : Room) : Option Address :=
  if r.state = .created then r.conference? else none

/-- Contact by which the room says that it is a focus. -/
def focusContact (conference : Address) : Address :=
  conference.setParam "isfocus"

end Room

end Switchboard
