/-!
# Answers to requests

The reason a request is answered with, and the status it is refused with on
the wire.
-/

namespace Switchboard

inductive Reason
  /-- The request is accepted. -/
  | none
  /-- The callee refuses. -/
  | declined
  /-- The request does not fit: no common encryption, or no such use of a room. -/
  | notAcceptable
  deriving DecidableEq, Repr

namespace Reason

def all : List Reason :=
  [none, declined, notAcceptable]

def status? : Reason → Option Nat
  | none => Option.none
  | declined => some 603
  | notAcceptable => some 488

def isRejection (r : Reason) : Bool :=
  r ≠ none

def name : Reason → String
  | none => "none"
  | declined => "declined"
  | notAcceptable => "not_acceptable"

def ofName? (name : String) : Option Reason :=
  all.find? fun r => r.name = name

/-- Phrase that goes with the status. -/
def phrase : Reason → String
  | none => "None"
  | declined => "Declined"
  | notAcceptable => "Not Acceptable Here"

theorem ofName?_name (r : Reason) : ofName? r.name = some r := by
  cases r <;> decide

end Reason

end Switchboard
