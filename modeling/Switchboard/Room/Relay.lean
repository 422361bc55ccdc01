import Switchboard.Room.Change

/-!
# Messages

A message of a participant is relayed to all others, each copy from the
address of the room to the contact of its recipient.
-/

namespace Switchboard.Room

/-- A copy of a message for one participant. -/
def deliver (conference : Address) (content : Content) (p : Participant) : Change :=
  Change.andThen
    (emit (.send { sender := conference, target := p.contact, content, applyModifiers := false }))
    (notify (.messageDispatched p.address))

/-- Sends a copy to every participant but the sender, and counts them. -/
def dispatch (sender : Address) (content : Content) (r : Room) : Nat × Room × List Effect :=
  match r.conference? with
  | none => (0, r, [])
  | some conference =>
    let recipients := r.roster.active.filter fun p => !sender.sameParty p.address
    (recipients.length, Change.sequence (recipients.map (deliver conference content)) r)

/-- Relays a message of a participant, if it is in the common format. -/
def relay (message : IncomingMessage) (r : Room) : Reason × Room × List Effect :=
  if (r.roster.find? message.sender).isNone then (.notAcceptable, r, [])
  else if !message.content.mediaType.same .cpim then (.notAcceptable, r, [])
  else (.none, (dispatch message.sender message.content r).2)

end Switchboard.Room
