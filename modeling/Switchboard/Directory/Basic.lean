import Switchboard.Address.Parser
import Switchboard.Room.Operation

/-!
# The directory of rooms

The directory holds the rooms of a server, oldest first, and the address of
the factory. An invitation to the factory makes a room; everything else is
passed to the first room at the address it is meant for, or to the first that
owns the session concerned. A room that is terminated leaves the directory.
-/

namespace Switchboard

structure Directory where
  factory : Address
  /-- Tries at finding an address for a new room. -/
  maxAttempts : Nat := 100
  rooms : List Room := []
  deriving DecidableEq, Repr

namespace Directory

inductive Error
  | room (cause : Room.Error)
  | roomNotFound (address : Address)
  /-- The configured factory is no address. -/
  | badFactory (cause : Address.Error)
  deriving DecidableEq, Repr

def Error.message : Error → String
  | room cause => cause.message
  | roomNotFound address => "Chat room not found: " ++ address.text
  | badFactory cause => "Invalid address: " ++ cause.message

/-- An empty directory with the factory at this address. -/
def parse (factoryUri : String) (maxAttempts : Nat) : Except Error Directory :=
  match Address.parse factoryUri with
  | .ok factory => .ok { factory, maxAttempts }
  | .error e => .error (.badFactory e)

/-- The room is reached at this address. -/
def isAt (a : Address) (room : Room) : Bool :=
  match room.conference? with
  | some conference => conference.sameParty a
  | none => false

def find? (d : Directory) (a : Address) : Option Room :=
  d.rooms.find? (isAt a)

/-- Some room is reached at this address. -/
def isTaken (d : Directory) (a : Address) : Bool :=
  d.rooms.any (isAt a)

/-- Puts a room in the place of the first that satisfies `p`. -/
def replaceFirst (p : Room → Bool) (room : Room) : List Room → List Room
  | [] => []
  | r :: rest => if p r then room :: rest else r :: replaceFirst p room rest

/-- An operation on the first room that satisfies `p`, if there is one. -/
def onFirst (d : Directory) (p : Room → Bool) (op : Room.Operation) :
    Option (Room.Answer × Directory × List Room.Effect) :=
  (d.rooms.find? p).map fun room =>
    let (answer, room, effects) := room.step op
    (answer, { d with rooms := replaceFirst p room d.rooms }, effects)

/-- Drops the rooms that are terminated. -/
def prune (d : Directory) : Directory :=
  { d with rooms := d.rooms.filter fun room => !room.isTerminated }

/-- How many rooms `prune` drops. -/
def terminatedCount (d : Directory) : Nat :=
  d.rooms.countP (·.isTerminated)

/-! ## Requests -/

def declined (session : Room.Session) : List Room.Effect :=
  [.decline session .notAcceptable]

/-- Makes a room. One that finds no address is not kept. -/
def create (d : Directory) (tokens : Nat → String) (request : Room.Invite) :
    Except Error Address × Directory × List Room.Effect :=
  match (Room.ofInvite request).establish d.isTaken tokens d.maxAttempts with
  | (.ok (address, _), room, effects) =>
    (.ok address, { d with rooms := d.rooms ++ [room] }, effects)
  | (.error e, _, effects) => (.error (.room e), d, effects ++ declined request.session)

/-- An invitation, to the factory or to a room. -/
def invite (d : Directory) (tokens : Nat → String) (request : Room.Invite) :
    Except Error Address × Directory × List Room.Effect :=
  if request.target.sameParty d.factory then d.create tokens request
  else
    let missing := Error.roomNotFound request.target
    match (d.find? request.target).bind (·.conference?),
        d.onFirst (isAt request.target) (.join request) with
    | some _, some (.refused e, after) => (.error (.room e), after)
    | some conference, some (_, after) => (.ok conference, after)
    | _, _ => (.error missing, d, declined request.session)

def relay (d : Directory) (message : Room.IncomingMessage) :
    Reason × Directory × List Room.Effect :=
  match d.onFirst (isAt message.target) (.relay message) with
  | some (.reason reason, after) => (reason, after)
  | _ => (.notAcceptable, d, [])

def sessionChanged (d : Directory) (session : Room.Session) (change : Room.SessionChange) :
    Directory × List Room.Effect :=
  match d.onFirst (·.ownsSession session) (.sessionChanged session change) with
  | some (_, d, effects) => (d.prune, effects)
  | none => (d, [])

/-- What an answer of a room means to whoever asked the directory. -/
def resultOf : Room.Answer → Except Error Unit
  | .refused e => .error (.room e)
  | _ => .ok ()

def addParticipant (d : Directory) (room participant : Address) :
    Except Error Unit × Directory × List Room.Effect :=
  match d.onFirst (isAt room) (.invite participant) with
  | some (answer, after) => (resultOf answer, after)
  | none => (.error (.roomNotFound room), d, [])

def removeParticipant (d : Directory) (room participant : Address) :
    Except Error Unit × Directory × List Room.Effect :=
  match d.onFirst (isAt room) (.expel participant) with
  | some (answer, d, effects) => (resultOf answer, d.prune, effects)
  | none => (.error (.roomNotFound room), d, [])

end Directory

end Switchboard
