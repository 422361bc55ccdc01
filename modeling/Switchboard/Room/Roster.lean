import Switchboard.Room.Signal

/-!
# Participants of a room

The roster lists the active participants, oldest first, and those removed
whose session has not ended yet. Participants are found by the party their
address names.
-/

namespace Switchboard.Room

structure Participant where
  address : Address
  /-- Where the participant's device can be reached. -/
  contact : Address
  isAdmin : Bool := false
  session? : Option Session := none
  deriving DecidableEq, Repr

/-- A participant that has not joined yet. -/
def Participant.ofAddress (a : Address) : Participant where
  address := a
  contact := a

structure Roster where
  active : List Participant := []
  removed : List Participant := []
  deriving DecidableEq, Repr

namespace Roster

def find? (r : Roster) (a : Address) : Option Participant :=
  r.active.find? fun p => p.address.sameParty a

def bySession? (r : Roster) (s : Session) : Option Participant :=
  r.active.find? fun p => p.session? = some s

def removedBySession? (r : Roster) (s : Session) : Option Participant :=
  r.removed.find? fun p => p.session? = some s

def admins (r : Roster) : List Participant :=
  r.active.filter (·.isAdmin)

/-- Appends a participant unless its party is active already. -/
def add (r : Roster) (p : Participant) : Roster :=
  if (r.find? p.address).isSome then r else { r with active := r.active ++ [p] }

/-- Changes the first participant of this party. -/
def update (f : Participant → Participant) (a : Address) : List Participant → List Participant
  | [] => []
  | p :: rest => if p.address.sameParty a then f p :: rest else p :: update f a rest

def modify (r : Roster) (a : Address) (f : Participant → Participant) : Roster :=
  { r with active := update f a r.active }

/-- Takes the participant of this party out. One with a session is kept until
its session ends. -/
def remove (r : Roster) (a : Address) : Roster :=
  match r.find? a with
  | none => r
  | some p =>
    { active := r.active.eraseP fun q => q.address.sameParty a
      removed := if p.session?.isSome then r.removed ++ [p] else r.removed }

/-- Forgets the first removed participant with this session. -/
def discard (r : Roster) (s : Session) : Roster :=
  { r with removed := r.removed.eraseP fun p => p.session? = some s }

end Roster

end Switchboard.Room
