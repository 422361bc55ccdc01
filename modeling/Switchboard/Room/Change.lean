import Switchboard.Room.Basic

/-!
# Changes of a room

A change takes a room to the room after it and to what it made happen, in
order. Each change of state, subject, roster or administrator is notified
once, right after it is made. Whenever a participant departs, an empty room
ends and a room without administrator gets its oldest participant as one.
-/

namespace Switchboard.Room

/-- A change of a room, and what it makes happen. -/
abbrev Change := Room → Room × List Effect

namespace Change

def none : Change := fun r => (r, [])

/-- One change, then another. -/
def andThen (first second : Change) : Change := fun r =>
  let (r₁, effects₁) := first r
  let (r₂, effects₂) := second r₁
  (r₂, effects₁ ++ effects₂)

/-- Changes one after another. -/
def sequence : List Change → Change
  | [] => none
  | first :: rest => first.andThen (sequence rest)

end Change

def emit (effect : Effect) : Change := fun r => (r, [effect])

def notify (event : Event) : Change := fun r =>
  let r := { r with sequence := r.sequence + 1 }
  (r, [.notify { room? := r.conference?, sequence := r.sequence, event }])

def setState (state : State) : Change := fun r =>
  if r.state = state then (r, []) else notify (.stateChanged state) { r with state }

def setSubject (subject : String) : Change := fun r =>
  if r.subject = subject then (r, []) else notify (.subjectChanged subject) { r with subject }

/-- Makes a participant administrator, or takes the role away. -/
def setAdmin (a : Address) (isAdmin : Bool) : Change := fun r =>
  match r.roster.find? a with
  | none => (r, [])
  | some p =>
    if p.isAdmin = isAdmin then (r, [])
    else
      notify (.adminChanged p.address isAdmin)
        { r with roster := r.roster.modify a fun p => { p with isAdmin } }

/-- Adds a participant and says so. -/
def enter (p : Participant) : Change := fun r =>
  notify (.participantAdded p.address) { r with roster := r.roster.add p }

/-- Ends the room. -/
def delete : Change := fun r =>
  if r.state = .terminated then (r, [])
  else (Change.andThen (setState .terminated) (notify .deleted)) r

/-- After a departure: an empty room ends, and a room without administrator
gets its oldest participant as one. -/
def settle : Change := fun r =>
  match r.roster.active with
  | [] => delete r
  | oldest :: _ =>
    if r.roster.active.any (·.isAdmin) then (r, []) else setAdmin oldest.address true r

/-- Takes a participant out, unless there is none of this party. -/
def depart (a : Address) : Change := fun r =>
  match r.roster.find? a with
  | none => (r, [])
  | some p =>
    (Change.andThen (notify (.participantRemoved p.address)) settle)
      { r with roster := r.roster.remove a }

end Switchboard.Room
