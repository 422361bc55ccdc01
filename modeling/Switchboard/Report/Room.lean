import Switchboard.Directory.Basic
import Switchboard.Json.Build
import Switchboard.Report.Encryption
import Switchboard.Room.EventJson

/-!
# Reports on rooms

Rooms, their participants and what they made happen, as JSON. Addresses are
given by their texts and sessions by their identifiers.
-/

namespace Switchboard

def Address.report (a : Address) : Json :=
  a.text

namespace Room

def Session.report (s : Session) : Json :=
  s.id

def Participant.report (p : Participant) : Json :=
  .record [("address", p.address.report), ("contact", p.contact.report), ("admin", p.isAdmin),
    ("session", Json.orNull Session.report p.session?)]

/-- A notice, with the name of its topic. -/
def Notice.report (n : Notice) : Json :=
  match n.toJson with
  | .record members => .record (members ++ [("type", .text n.event.topic.name)])
  | other => other

def Effect.report : Effect → Json
  | accept s contact => .record [("accept", s.report), ("contact", contact.report)]
  | decline s reason => .record [("decline", s.report), ("reason", reason.name)]
  | redirect s target => .record [("redirect", s.report), ("target", target.report)]
  | refer target referTo => .record [("refer", target.report), ("refer_to", referTo.report)]
  | send m =>
    .record [("message", m.target.report), ("from", m.sender.report),
      ("type", m.content.mediaType.written),
      ("disposition", Json.orNull .text m.content.disposition?), ("body", m.content.body),
      ("apply_modifiers", m.applyModifiers)]
  | notify n => .record [("event", n.report)]

end Room

def Room.report (r : Room) : Json :=
  .record [("state", r.state.name), ("terminated", r.isTerminated), ("subject", r.subject),
    ("me", r.focus.report), ("conference", Json.orNull Address.report r.conference?),
    ("participants", .list (r.roster.active.map Participant.report)),
    ("removed", .list (r.roster.removed.map Participant.report)),
    ("count", r.roster.active.length),
    ("admin", Json.orNull (fun p => p.address.report) r.admin?),
    ("capabilities", Room.capabilities.bits),
    ("peer", Json.orNull Address.report r.conference?)]

def Directory.report (d : Directory) : Json :=
  .record [("count", d.rooms.length), ("rooms", .list (d.rooms.map Room.report))]

end Switchboard
