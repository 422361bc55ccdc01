import Switchboard.Content
import Switchboard.Reason
import Switchboard.Room.Event

/-!
# Signaling

The requests that reach a room, and what a room makes happen: the answers it
gives, the requests it sends and the notices for its listeners. A session is
known by an identifier that the signaling layer has chosen.
-/

namespace Switchboard.Room

structure Session where
  id : String
  deriving DecidableEq, Repr

/-- An invitation, or a later one within its session. -/
structure Invite where
  session : Session
  sender : Address
  target : Address
  /-- Where the sender can be reached. -/
  contact : Address
  subject? : Option String := none
  body? : Option Content := none
  deriving DecidableEq, Repr

structure IncomingMessage where
  sender : Address
  target : Address
  content : Content
  deriving DecidableEq, Repr

structure OutgoingMessage where
  sender : Address
  target : Address
  content : Content
  /-- Wrapping and encryption are applied once more. -/
  applyModifiers : Bool
  deriving DecidableEq, Repr

/-- What the signaling layer reports of a session. -/
inductive SessionChange
  | connected
  /-- The peer has sent a new invitation within the session. -/
  | updated (invite : Invite)
  | ended
  deriving DecidableEq, Repr

inductive Effect
  | accept (session : Session) (contact : Address)
  | decline (session : Session) (reason : Reason)
  | redirect (session : Session) (target : Address)
  /-- Asks `target` to contact `referTo`. -/
  | refer (target referTo : Address)
  | send (message : OutgoingMessage)
  | notify (notice : Notice)
  deriving DecidableEq, Repr

end Switchboard.Room
