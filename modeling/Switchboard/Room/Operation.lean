import Switchboard.Room.Creation
import Switchboard.Room.Relay
import Switchboard.Room.Request

/-!
# Operations on a room

Everything that can be asked of a room, as one type, with the answer and the
effects of each. A history of a room is a list of operations; running it
gives the room after it and all that it made happen.
-/

namespace Switchboard.Room

inductive Operation
  /-- Look for an address, given which are taken and the random tokens. -/
  | establish (taken : Address → Bool) (tokens : Nat → String) (attempts : Nat)
  | join (request : Invite)
  | comply (request : Invite)
  | invite (address : Address)
  | inviteAll (addresses : List Address)
  | expel (address : Address)
  | transferAdmin (address : Address)
  | setSubject (subject : String)
  | dispatch (sender : Address) (content : Content)
  | relay (message : IncomingMessage)
  | sessionChanged (session : Session) (change : SessionChange)

inductive Answer
  | done
  /-- The room is reached at this address, found in this many tries. -/
  | established (address : Address) (tries : Nat)
  /-- This many copies were sent. -/
  | copies (count : Nat)
  | reason (reason : Reason)
  | refused (error : Error)
  deriving DecidableEq, Repr

def Answer.ofResult : Except Error Unit → Answer
  | .ok () => done
  | .error e => refused e

def step (r : Room) (op : Operation) : Answer × Room × List Effect :=
  match op with
  | .establish taken tokens attempts =>
    match r.establish taken tokens attempts with
    | (.ok (address, tries), after) => (.established address tries, after)
    | (.error e, after) => (.refused e, after)
  | .join request =>
    let (result, after) := r.join request
    (.ofResult result, after)
  | .comply request => (.done, Room.comply request r)
  | .invite address =>
    let (result, after) := r.invite address
    (.ofResult result, after)
  | .inviteAll addresses =>
    let (result, after) := r.inviteAll addresses
    (.ofResult result, after)
  | .expel address =>
    let (result, after) := r.expel address
    (.ofResult result, after)
  | .transferAdmin address =>
    let (result, after) := r.transferAdmin address
    (.ofResult result, after)
  | .setSubject subject => (.done, Room.setSubject subject r)
  | .dispatch sender content =>
    let (count, after) := r.dispatch sender content
    (.copies count, after)
  | .relay message =>
    let (reason, after) := r.relay message
    (.reason reason, after)
  | .sessionChanged session change => (.done, Room.sessionChanged session change r)

/-- The room after a history, and all its effects in order. -/
def run (r : Room) : List Operation → Room × List Effect
  | [] => (r, [])
  | op :: rest =>
    let (_, r₁, effects₁) := r.step op
    let (r₂, effects₂) := run r₁ rest
    (r₂, effects₁ ++ effects₂)

@[simp] theorem run_nil (r : Room) : r.run [] = (r, []) := rfl

theorem run_cons (r : Room) (op : Operation) (rest : List Operation) :
    r.run (op :: rest) =
      (((r.step op).2.1.run rest).1,
        (r.step op).2.2 ++ ((r.step op).2.1.run rest).2) := rfl

theorem run_append (r : Room) (ops rest : List Operation) :
    r.run (ops ++ rest) =
      (((r.run ops).1.run rest).1, (r.run ops).2 ++ ((r.run ops).1.run rest).2) := by
  induction ops generalizing r with
  | nil => simp
  | cons op ops ih =>
      rw [List.cons_append, run_cons, ih, run_cons]
      simp [List.append_assoc]

end Switchboard.Room
