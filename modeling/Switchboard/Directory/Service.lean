import Switchboard.Directory.Basic

/-!
# Serving requests

The server takes requests one at a time. A request for a room comes with the
random tokens it may use; its answer goes to whoever sent it, and its effects
follow those of the requests before it.
-/

namespace Switchboard.Directory

inductive Request
  | invite (tokens : Nat → String) (request : Room.Invite)
  | message (message : Room.IncomingMessage)
  | sessionChanged (session : Room.Session) (change : Room.SessionChange)
  | addParticipant (room participant : Address)
  | removeParticipant (room participant : Address)

inductive Answer
  /-- The request is answered through signaling alone. -/
  | none
  | reason (reason : Reason)
  | result (result : Except Error Unit)

def step (d : Directory) (request : Request) : Answer × Directory × List Room.Effect :=
  match request with
  | .invite tokens request => (.none, (d.invite tokens request).2)
  | .message message =>
    let (reason, after) := d.relay message
    (.reason reason, after)
  | .sessionChanged session change => (.none, d.sessionChanged session change)
  | .addParticipant room participant =>
    let (result, after) := d.addParticipant room participant
    (.result result, after)
  | .removeParticipant room participant =>
    let (result, after) := d.removeParticipant room participant
    (.result result, after)

/-- Serves requests in order: the answers, the directory after them, and all
effects. -/
def serve (d : Directory) : List Request → List Answer × Directory × List Room.Effect
  | [] => ([], d, [])
  | request :: rest =>
    let (answer, d₁, effects₁) := d.step request
    let (answers, d₂, effects₂) := serve d₁ rest
    (answer :: answers, d₂, effects₁ ++ effects₂)

@[simp] theorem serve_nil (d : Directory) : d.serve [] = ([], d, []) := rfl

theorem serve_cons (d : Directory) (request : Request) (rest : List Request) :
    d.serve (request :: rest) =
      ((d.step request).1 :: ((d.step request).2.1.serve rest).1,
        ((d.step request).2.1.serve rest).2.1,
        (d.step request).2.2 ++ ((d.step request).2.1.serve rest).2.2) := rfl

end Switchboard.Directory
