/-!
# Life of a room

A room is instantiated, looks for its address, is created once it has one,
and is terminated when its last participant leaves or when no address was
found.
-/

namespace Switchboard.Room

inductive State
  | instantiated
  | creationPending
  | created
  | terminated
  deriving DecidableEq, Repr

namespace State

def all : List State :=
  [instantiated, creationPending, created, terminated]

def name : State → String
  | instantiated => "instantiated"
  | creationPending => "creation_pending"
  | created => "created"
  | terminated => "terminated"

/-- Name of the state in error texts. -/
def label : State → String
  | instantiated => "Instantiated"
  | creationPending => "CreationPending"
  | created => "Created"
  | terminated => "Terminated"

def ofName? (name : String) : Option State :=
  all.find? fun s => s.name = name

theorem ofName?_name (s : State) : ofName? s.name = some s := by
  cases s <;> decide

end State

end Switchboard.Room
