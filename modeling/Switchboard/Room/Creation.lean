import Switchboard.Room.Change

/-!
# Finding an address

A room looks for an address that no other room has, by trying random ones a
limited number of times. With an address it is created and sends its creator
there; without one it is terminated.
-/

namespace Switchboard.Room

/-- Address for a room of this focus, made with a random token. -/
def candidate (focus : Participant) (token : String) : Address :=
  focus.contact.identity.withUser (some ("chatroom-" ++ token))

/-- First number from `start` on, of at most `attempts`, that satisfies
`free`. -/
def firstFree (free : Nat → Bool) : (attempts start : Nat) → Option Nat
  | 0, _ => none
  | attempts + 1, start => if free start then some start else firstFree free attempts (start + 1)

/-- Gives the room the first candidate address that is not taken, and sends
its creator there. -/
def establish (taken : Address → Bool) (tokens : Nat → String) (attempts : Nat) (r : Room) :
    Except Error (Address × Nat) × Room × List Effect :=
  if r.state ≠ .instantiated then (.error (.invalidState r.state), r, [])
  else
    let address (i : Nat) := candidate r.focus (tokens i)
    match firstFree (fun i => !taken (address i)) attempts 0 with
    | none =>
      (.error (.noFreeAddress attempts),
        (Change.andThen (setState .creationPending) (setState .terminated)) r)
    | some i =>
      let assign : Change := fun r =>
        ({ r with focus := { r.focus with address := address i, contact := address i }
                  conference? := some (address i) }, [])
      let answer : Change := fun r =>
        match r.focus.session? with
        | some session => emit (.redirect session (focusContact (address i))) r
        | none => (r, [])
      (.ok (address i, i + 1),
        Change.sequence [setState .creationPending, assign, answer, setState .created] r)

end Switchboard.Room
