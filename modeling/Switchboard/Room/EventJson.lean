import Switchboard.Address.Parser
import Switchboard.Address.Printer
import Switchboard.Json.Parser
import Switchboard.Json.Printer
import Switchboard.Room.Event

/-!
# Events as JSON

An event is written as an object whose tag says what kind it is and whose
other members carry the values of that kind; addresses are written as texts.
Read back, the order of the members does not matter and members the kind does
not use are passed over, but the tag and the members in use occur exactly
once. A list of the tag and exactly the values of its kind, in their order, is
read as well.
-/

namespace Switchboard.Room

namespace Event

def toJson (e : Event) : Json :=
  .record (("kind", .text e.topic.tag) :: match e with
    | participantAdded a | participantRemoved a => [("participant", .text a.text)]
    | adminChanged a isAdmin => [("participant", .text a.text), ("is_admin", .bool isAdmin)]
    | subjectChanged s => [("subject", .text s)]
    | stateChanged s => [("state", .text s.name)]
    | messageDispatched a => [("recipient", .text a.text)]
    | deleted => [])

end Event

/-- The address a member gives as a text. -/
def addressOf (members : List (String × Json)) (name : String) : Option Address :=
  (Json.single? members name).bind fun value =>
    value.text?.bind fun s => (Address.parse s).toOption

def stateOf (members : List (String × Json)) (name : String) : Option State :=
  (Json.single? members name).bind fun value =>
    (value.choice? Json.isVacant).bind State.ofName?

/-- Names of the members that an event about this topic has besides its tag. -/
def Topic.memberNames : Topic → List String
  | participantAdded | participantRemoved => ["participant"]
  | adminChanged => ["participant", "is_admin"]
  | subjectChanged => ["subject"]
  | stateChanged => ["state"]
  | messageDispatched => ["recipient"]
  | deleted => []

def Topic.read (members : List (String × Json)) : Topic → Option Event
  | participantAdded => (addressOf members "participant").map .participantAdded
  | participantRemoved => (addressOf members "participant").map .participantRemoved
  | adminChanged =>
    (addressOf members "participant").bind fun a =>
      ((Json.single? members "is_admin").bind Json.bool?).map (.adminChanged a)
  | subjectChanged => ((Json.single? members "subject").bind Json.text?).map .subjectChanged
  | stateChanged => (stateOf members "state").map .stateChanged
  | messageDispatched => (addressOf members "recipient").map .messageDispatched
  | deleted => some .deleted

namespace Event

def ofJson? : Json → Option Event
  | .record members =>
    (Json.single? members "kind").bind fun kind =>
      kind.text?.bind fun tag => (Topic.ofTag? tag).bind fun topic => topic.read members
  | .list (.text tag :: values) =>
    (Topic.ofTag? tag).bind fun topic =>
      if values.length = topic.memberNames.length then topic.read (topic.memberNames.zip values)
      else none
  | _ => none

/-- The event written in a JSON text. -/
def parse? (s : String) : Option Event :=
  (Json.parse? s).bind ofJson?

def text (e : Event) : String :=
  e.toJson.render

end Event

/-- A notice without what is particular to its delivery. -/
def Notice.toJson (n : Notice) : Json :=
  .record [
    ("room", match n.room? with
      | some room => .text room.text
      | none => .null),
    ("sequence", .integer n.sequence),
    ("event", n.event.toJson)]

end Switchboard.Room
