import Switchboard.Address.Basic
import Switchboard.Room.State

/-!
# Room events

Every change of a room is told to its listeners as an event, in a notice that
carries the room's address, once it has one, and a number that counts the
notices of the room from one. The number never wraps around: fewer than 2^64
notices are meant.
-/

namespace Switchboard.Room

inductive Event
  | participantAdded (participant : Address)
  | participantRemoved (participant : Address)
  | adminChanged (participant : Address) (isAdmin : Bool)
  | subjectChanged (subject : String)
  | stateChanged (state : State)
  | messageDispatched (recipient : Address)
  | deleted
  deriving DecidableEq, Repr

structure Notice where
  room? : Option Address
  sequence : Nat
  event : Event
  deriving DecidableEq, Repr

/-! ## Topics -/

/-- What an event is about. -/
inductive Topic
  | participantAdded
  | participantRemoved
  | adminChanged
  | subjectChanged
  | stateChanged
  | messageDispatched
  | deleted
  deriving DecidableEq, Repr

def Event.topic : Event → Topic
  | participantAdded _ => .participantAdded
  | participantRemoved _ => .participantRemoved
  | adminChanged _ _ => .adminChanged
  | subjectChanged _ => .subjectChanged
  | stateChanged _ => .stateChanged
  | messageDispatched _ => .messageDispatched
  | deleted => .deleted

namespace Topic

def all : List Topic :=
  [participantAdded, participantRemoved, adminChanged, subjectChanged, stateChanged,
   messageDispatched, deleted]

/-- Name under which listeners know the topic. -/
def name : Topic → String
  | participantAdded => "chat_room.participant_added"
  | participantRemoved => "chat_room.participant_removed"
  | adminChanged => "chat_room.admin_status_changed"
  | subjectChanged => "chat_room.subject_changed"
  | stateChanged => "chat_room.state_changed"
  | messageDispatched => "chat_room.message_dispatched"
  | deleted => "chat_room.deleted"

/-- Name of the topic in diagnostics. -/
def label : Topic → String
  | participantAdded => "ParticipantAdded"
  | participantRemoved => "ParticipantRemoved"
  | adminChanged => "ParticipantAdminStatusChanged"
  | subjectChanged => "SubjectChanged"
  | stateChanged => "StateChanged"
  | messageDispatched => "MessageDispatched"
  | deleted => "RoomDeleted"

/-- Tag of the topic in a written event. -/
def tag : Topic → String
  | participantAdded => "participant_added"
  | participantRemoved => "participant_removed"
  | adminChanged => "participant_admin_status_changed"
  | subjectChanged => "subject_changed"
  | stateChanged => "state_changed"
  | messageDispatched => "message_dispatched"
  | deleted => "room_deleted"

def ofName? (name : String) : Option Topic :=
  all.find? fun t => t.name = name

def ofTag? (tag : String) : Option Topic :=
  all.find? fun t => t.tag = tag

theorem ofName?_name (t : Topic) : ofName? t.name = some t := by
  cases t <;> decide

theorem ofTag?_tag (t : Topic) : ofTag? t.tag = some t := by
  cases t <;> decide

end Topic

end Switchboard.Room
