import Switchboard.Text.Blank

/-!
# Stream directions

The direction of a stream is an attribute without a value. It is read with
blanks around it dropped and with any number of type letters in front.
-/

namespace Switchboard.Sdp

inductive Direction
  | inactive
  | sendOnly
  | receiveOnly
  | sendReceive
  deriving DecidableEq, Repr

/-- A text that names no direction, without blanks and type letters. -/
structure UnknownDirection where
  text : String
  deriving DecidableEq, Repr

def UnknownDirection.message (u : UnknownDirection) : String :=
  "Invalid SDP attribute: unknown direction " ++ u.text

namespace Direction

def all : List Direction :=
  [inactive, sendOnly, receiveOnly, sendReceive]

def name : Direction → String
  | inactive => "inactive"
  | sendOnly => "sendonly"
  | receiveOnly => "recvonly"
  | sendReceive => "sendrecv"

/-- Drops every type letter in front. -/
def dropTypeLetters : List Char → List Char
  | 'a' :: '=' :: rest => dropTypeLetters rest
  | s => s

def parse (s : String) : Except UnknownDirection Direction :=
  let bare := String.ofList (dropTypeLetters (Text.trim s.toList))
  match all.find? fun d => d.name = bare with
  | some d => .ok d
  | none => .error ⟨bare⟩

theorem parse_name (d : Direction) : parse d.name = .ok d := by
  cases d <;> rfl

end Direction

end Switchboard.Sdp
