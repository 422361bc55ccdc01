import Switchboard.Room.Change

/-!
# Coming and going

Participants are invited and expelled by requests to their devices. Inviting
a party that takes part already changes nothing. The role of administrator
can be given to any participant.
-/

namespace Switchboard.Room

/-- Request to a participant's device: to join, or with `leave` to leave. -/
def referTo (conference : Address) (leave : Bool) : Address :=
  let target := conference.setParam "text"
  if leave then target.setUriParam "method" (some "BYE") else target

/-- Invites a party and adds it as participant, unless it is one. -/
def invite (a : Address) (r : Room) : Except Error Unit × Room × List Effect :=
  match r.liveAddress? with
  | none => (.error (.invalidState r.state), r, [])
  | some conference =>
    if r.roster.active = [] then (.error (.invalidState r.state), r, [])
    else if (r.roster.find? a).isSome then (.ok (), r, [])
    else
      (.ok (), (Change.andThen (emit (.refer a (referTo conference false)))
        (enter (.ofAddress a))) r)

/-- Invites parties in order, up to the first error. -/
def inviteAll (as : List Address) (r : Room) : Except Error Unit × Room × List Effect :=
  match as with
  | [] => (.ok (), r, [])
  | a :: rest =>
    match invite a r with
    | (.error e, r₁, effects₁) => (.error e, r₁, effects₁)
    | (.ok (), r₁, effects₁) =>
      let (result, r₂, effects₂) := inviteAll rest r₁
      (result, r₂, effects₁ ++ effects₂)

/-- Asks a participant to leave, and takes it out. -/
def expel (a : Address) (r : Room) : Except Error Unit × Room × List Effect :=
  match r.liveAddress? with
  | none => (.error (.invalidState r.state), r, [])
  | some conference =>
    match r.roster.find? a with
    | none => (.error (.unknownParticipant a), r, [])
    | some p =>
      (.ok (), (Change.andThen (emit (.refer p.contact (referTo conference true))) (depart a)) r)

/-- Moves the role of administrator to another participant. -/
def transferAdmin (successor : Address) (r : Room) : Except Error Unit × Room × List Effect :=
  match r.roster.find? successor with
  | none => (.error (.unknownParticipant successor), r, [])
  | some _ =>
    let previous := (r.roster.admins.filter fun p => !p.address.sameParty successor).map (·.address)
    (.ok (), (Change.andThen (setAdmin successor true)
      (Change.sequence (previous.map fun a => setAdmin a false))) r)

end Switchboard.Room
