import Switchboard.Proofs.Directory.History
import Switchboard.Proofs.Directory.Invitation

/-!
# Rooms that keep apart

A request to a directory concerns one of its rooms at most, and leaves all
others where and as they are. So two requests that concern two rooms can be
served in either order, as long as no session belongs to both: each room is
asked the same in the same state, and each is found in its place.
-/

namespace Switchboard

/-! ## Sessions of a room -/

namespace Room

/-- Sessions of the focus, the participants and those removed. -/
def sessions (r : Room) : List Session :=
  r.focus.session?.toList ++ r.roster.active.filterMap (·.session?)
    ++ r.roster.removed.filterMap (·.session?)

theorem ownsSession_iff {r : Room} {s : Session} : r.ownsSession s = true ↔ s ∈ r.sessions := by
  simp [ownsSession, sessions, Roster.bySession?, Roster.removedBySession?, or_assoc]

/-- Sessions that the room has before the operation or after it. -/
def sessionsAround (r : Room) (op : Operation) : List Session :=
  r.sessions ++ (r.step op).2.1.sessions

/-- The room, unless it has ended. -/
def remaining (r : Room) : List Room :=
  if r.isTerminated then [] else [r]

theorem remaining_of_created {r : Room} (h : r.state = .created) : r.remaining = [r] := by
  unfold remaining
  rw [if_neg (by simp [isTerminated, h])]

theorem eq_of_mem_remaining {r r' : Room} (h : r' ∈ r.remaining) : r' = r := by
  unfold remaining at h
  split at h
  · exact absurd h List.not_mem_nil
  · exact List.mem_singleton.mp h

end Room

namespace Directory

open Room (Effect)

variable {d : Directory} {room other : Room} {request first second : Request}
  {p q : Room → Bool} {rooms new : List Room} {turns : List Turn}

/-! ## Whom a request concerns -/

namespace Request

/-- The request asks the factory for a room. -/
def isForFactory (factory : Address) : Request → Bool
  | .invite _ invitation => invitation.target.sameParty factory
  | _ => false

/-- The request is for this room, going by its address or its sessions. -/
def concerns : Request → Room → Bool
  | .invite _ invitation => isAt invitation.target
  | .message m => isAt m.target
  | .sessionChanged session _ => (·.ownsSession session)
  | .addParticipant room _ => isAt room
  | .removeParticipant room _ => isAt room

/-- What the room is asked. -/
def operation : Request → Room.Operation
  | .invite _ invitation => .join invitation
  | .message m => .relay m
  | .sessionChanged session change => .sessionChanged session change
  | .addParticipant _ participant => .invite participant
  | .removeParticipant _ participant => .expel participant

/-- What the answer of the room is to the sender. -/
def reply : Request → Room.Answer → Answer
  | .invite _ _, _ => .none
  | .message _, .reason reason => .reason reason
  | .message _, _ => .reason .notAcceptable
  | .sessionChanged _ _, _ => .none
  | .addParticipant _ _, answer => .result (resultOf answer)
  | .removeParticipant _ _, answer => .result (resultOf answer)

end Request

/-- The room that a request is passed to. -/
def addressee? (d : Directory) (request : Request) : Option Room :=
  if request.isForFactory d.factory then none else d.rooms.find? request.concerns

theorem of_addressee? (h : d.addressee? request = some room) :
    request.isForFactory d.factory = false ∧ d.rooms.find? request.concerns = some room := by
  unfold addressee? at h
  split at h
  · exact absurd h (by simp)
  · rename_i hfactory
    exact ⟨by simpa using hfactory, h⟩

theorem addressee?_mem (h : d.addressee? request = some room) :
    room ∈ d.rooms ∧ request.concerns room = true :=
  ⟨List.mem_of_find?_eq_some (of_addressee? h).2, List.find?_some (of_addressee? h).2⟩

/-! ## Rooms in the place of another -/

/-- Puts rooms in the place of the first that satisfies `p`. -/
def substitute (p : Room → Bool) (new : List Room) : List Room → List Room
  | [] => []
  | r :: rest => if p r then new ++ rest else r :: substitute p new rest

theorem replaceFirst_eq_substitute (p : Room → Bool) (room : Room) (rooms : List Room) :
    replaceFirst p room rooms = substitute p [room] rooms := by
  induction rooms with
  | nil => rfl
  | cons r rest ih =>
      rw [replaceFirst, substitute, ih]
      rfl

theorem substitute_of_find? (h : rooms.find? p = some room) (new : List Room) :
    ∃ front back, rooms = front ++ room :: back ∧
      substitute p new rooms = front ++ new ++ back := by
  induction rooms with
  | nil => exact absurd h (by simp)
  | cons r rest ih =>
      rw [substitute]
      by_cases hp : p r = true
      · rw [List.find?_cons_of_pos hp, Option.some.injEq] at h
        subst h
        exact ⟨[], rest, rfl, by rw [if_pos hp]; rfl⟩
      · rw [List.find?_cons_of_neg hp] at h
        obtain ⟨front, back, hrooms, hnew⟩ := ih h
        exact ⟨r :: front, back, by rw [hrooms]; rfl, by rw [if_neg hp, hnew]; rfl⟩

/-- Of rooms that have not ended, pruning can drop the new one only. -/
theorem filter_substitute (h : ∀ r ∈ rooms, r.state = .created) (room : Room) :
    (substitute p [room] rooms).filter (fun r => !r.isTerminated) =
      substitute p room.remaining rooms := by
  induction rooms with
  | nil => rfl
  | cons r rest ih =>
      have hrest : ∀ r ∈ rest, r.state = .created := fun r hr => h r (List.mem_cons_of_mem _ hr)
      have hr : r.isTerminated = false := by
        simp [Room.isTerminated, h r List.mem_cons_self]
      rw [substitute, substitute]
      split
      · rw [List.filter_append, filter_live hrest]
        congr 1
        unfold Room.remaining
        cases h : room.isTerminated <;> simp [h]
      · rw [List.filter_cons_of_pos (by simp [hr]), ih hrest]

theorem find?_append_of_not {rest : List Room} (h : ∀ r ∈ new, q r = false) :
    (new ++ rest).find? q = rest.find? q := by
  have hnone : new.find? q = none := by
    rw [List.find?_eq_none]
    intro r hr
    simp [h r hr]
  rw [List.find?_append, hnone, Option.none_or]

theorem substitute_append_of_not {rest fresh : List Room} (h : ∀ r ∈ new, q r = false) :
    substitute q fresh (new ++ rest) = new ++ substitute q fresh rest := by
  induction new with
  | nil => rfl
  | cons r new ih =>
      have hr : ¬q r = true := by simp [h r List.mem_cons_self]
      rw [List.cons_append, substitute, if_neg hr, ih fun r hr => h r (List.mem_cons_of_mem _ hr)]
      rfl

/-- Another room is found where it was. -/
theorem find?_substitute (hroom : rooms.find? p = some room)
    (hother : rooms.find? q = some other) (hq : q room = false)
    (hnew : ∀ r ∈ new, q r = false) : (substitute p new rooms).find? q = some other := by
  induction rooms with
  | nil => exact absurd hroom (by simp)
  | cons r rest ih =>
      rw [substitute]
      by_cases hp : p r = true
      · rw [List.find?_cons_of_pos hp, Option.some.injEq] at hroom
        subst hroom
        rw [List.find?_cons_of_neg (by simp [hq])] at hother
        rw [if_pos hp, find?_append_of_not hnew, hother]
      · rw [List.find?_cons_of_neg hp] at hroom
        rw [if_neg hp]
        by_cases hr : q r = true
        · rw [List.find?_cons_of_pos hr] at hother ⊢
          exact hother
        · rw [List.find?_cons_of_neg hr] at hother ⊢
          exact ih hroom hother

/-- Two rooms can be replaced in either order. -/
theorem substitute_comm {fresh : List Room} (hroom : rooms.find? p = some room)
    (hother : rooms.find? q = some other) (hq : q room = false)
    (hnew : ∀ r ∈ new, q r = false) (hfresh : ∀ r ∈ fresh, p r = false) :
    substitute q fresh (substitute p new rooms) = substitute p new (substitute q fresh rooms) := by
  induction rooms with
  | nil => rfl
  | cons r rest ih =>
      by_cases hpr : p r = true
      · have hqr : ¬q r = true := by
          rw [List.find?_cons_of_pos hpr, Option.some.injEq] at hroom
          simp [hroom, hq]
        rw [substitute, if_pos hpr, substitute_append_of_not hnew, substitute, if_neg hqr,
          substitute, if_pos hpr]
      · rw [List.find?_cons_of_neg hpr] at hroom
        by_cases hqr : q r = true
        · rw [substitute, if_neg hpr, substitute, if_pos hqr, substitute, if_pos hqr,
            substitute_append_of_not hfresh]
        · rw [List.find?_cons_of_neg hqr] at hother
          rw [substitute, if_neg hpr, substitute, if_neg hqr, ih hroom hother, substitute,
            if_neg hqr, substitute, if_neg hpr]

/-! ## What a request does -/

/-- The directory after its room has been asked. -/
def passedOn (d : Directory) (request : Request) (room : Room) : Directory :=
  { d with rooms :=
      substitute request.concerns (room.step request.operation).2.1.remaining d.rooms }

theorem passedOn_eq_prune (h : Sound d) (room : Room) (request : Request) :
    d.passedOn request room =
      { d with rooms :=
          replaceFirst request.concerns (room.step request.operation).2.1 d.rooms }.prune := by
  unfold passedOn prune
  rw [replaceFirst_eq_substitute, filter_substitute fun r hr => (h.live r hr).1]

/-- Whoever visits a room leaves it as it stands. -/
theorem passedOn_of_visits (h : Sound d) (hroom : d.addressee? request = some room)
    (hvisits : Room.Chain Room.Visit room (room.step request.operation).2) :
    d.passedOn request room =
      { d with rooms :=
          replaceFirst request.concerns (room.step request.operation).2.1 d.rooms } := by
  have hcreated := (h.live room (addressee?_mem hroom).1).1
  have hstate := (Room.calm_of_visits hvisits).state
  unfold passedOn
  rw [replaceFirst_eq_substitute, Room.remaining_of_created (hstate.trans hcreated)]

/-- A request that concerns a room is what the room is asked, and nothing
more. -/
theorem step_of_addressee (h : Sound d) (hroom : d.addressee? request = some room) :
    d.step request = (request.reply (room.step request.operation).1, d.passedOn request room,
      (room.step request.operation).2.2) := by
  obtain ⟨hfactory, hfind⟩ := of_addressee? hroom
  have hasked := onFirst_of_find? hfind request.operation
  cases request with
  | invite tokens request =>
      obtain ⟨conference, hconference⟩ :=
        Option.isSome_iff_exists.mp (h.live room (addressee?_mem hroom).1).2
      rw [passedOn_of_visits h hroom (Room.visits_join request room)]
      show (Answer.none, (d.invite tokens request).2) = _
      rw [invite_of_room hfactory hfind hconference]
      rfl
  | message m =>
      simp only [Request.concerns, Request.operation] at hasked
      rw [passedOn_of_visits h hroom (Room.visits_relay m room)]
      show (Answer.reason (d.relay m).1, (d.relay m).2) = _
      unfold relay
      rw [hasked]
      rfl
  | sessionChanged session change =>
      simp only [Request.concerns, Request.operation] at hasked
      rw [passedOn_eq_prune h]
      show (Answer.none, d.sessionChanged session change) = _
      unfold sessionChanged
      rw [hasked]
      rfl
  | addParticipant a participant =>
      simp only [Request.concerns, Request.operation] at hasked
      rw [passedOn_of_visits h hroom (Room.visits_invite participant room)]
      show (Answer.result (d.addParticipant a participant).1,
        (d.addParticipant a participant).2) = _
      unfold addParticipant
      rw [hasked]
      rfl
  | removeParticipant a participant =>
      simp only [Request.concerns, Request.operation] at hasked
      rw [passedOn_eq_prune h]
      show (Answer.result (d.removeParticipant a participant).1,
        (d.removeParticipant a participant).2) = _
      unfold removeParticipant
      rw [hasked]
      rfl

theorem step_of_nobody (hfactory : request.isForFactory d.factory = false)
    (hnobody : ∀ room ∈ d.rooms, request.concerns room = false) : (d.step request).2.1 = d := by
  have hfind : d.rooms.find? request.concerns = none := by
    rw [List.find?_eq_none]
    intro room hroom
    simp [hnobody room hroom]
  have hasked := onFirst_of_none hfind request.operation
  cases request with
  | invite tokens request =>
      show (d.invite tokens request).2.1 = d
      rw [invite_of_nowhere hfactory hfind]
  | message m =>
      show (d.relay m).2.1 = d
      simp only [Request.concerns, Request.operation] at hasked
      simp only [relay, hasked]
  | sessionChanged session change =>
      show (d.sessionChanged session change).1 = d
      simp only [Request.concerns, Request.operation] at hasked
      simp only [sessionChanged, hasked]
  | addParticipant a participant =>
      show (d.addParticipant a participant).2.1 = d
      simp only [Request.concerns, Request.operation] at hasked
      simp only [addParticipant, hasked]
  | removeParticipant a participant =>
      show (d.removeParticipant a participant).2.1 = d
      simp only [Request.concerns, Request.operation] at hasked
      simp only [removeParticipant, hasked]

/-- The factory adds a room, or none, to those that are there. -/
theorem step_of_factory (hfactory : request.isForFactory d.factory = true) :
    ∃ new : List Room, new.length ≤ 1 ∧
      (d.step request).2.1 = { d with rooms := d.rooms ++ new } := by
  cases request with
  | invite tokens request =>
      show ∃ new : List Room, new.length ≤ 1 ∧
        (d.invite tokens request).2.1 = { d with rooms := d.rooms ++ new }
      rw [invite_of_factory hfactory]
      unfold create
      split
      · rename_i room _ _
        exact ⟨[room], Nat.le_refl 1, rfl⟩
      · exact ⟨[], Nat.zero_le 1, by rw [List.append_nil]⟩
  | _ => exact absurd hfactory (by simp [Request.isForFactory])

/-! ## Two requests -/

/-- A request for one room is none for another, before and after the other has
been asked, if no session belongs to both. -/
theorem not_concerned (h : Sound d) (hfirst : d.addressee? first = some room)
    (hsecond : d.addressee? second = some other) (hne : room ≠ other)
    (hapart : ∀ s ∈ room.sessionsAround first.operation,
      s ∉ other.sessionsAround second.operation) :
    second.concerns room = false ∧
      ∀ r ∈ (room.step first.operation).2.1.remaining, second.concerns r = false := by
  obtain ⟨hroom, -⟩ := addressee?_mem hfirst
  obtain ⟨hother, hconcerns⟩ := addressee?_mem hsecond
  -- by address there is one room at most, and the room keeps its address
  have haddress : ∀ a, second.concerns = isAt a → second.concerns room = false ∧
      ∀ r ∈ (room.step first.operation).2.1.remaining, second.concerns r = false := by
    intro a ha
    rw [ha] at hconcerns ⊢
    have hnot : isAt a room = false := by
      rw [← Bool.not_eq_true]
      intro hat
      exact hne (h.eq_of_isAt hroom hother hat hconcerns)
    refine ⟨hnot, ?_⟩
    intro r hr
    have hcreated := (h.live room hroom).1
    have hconference := Room.step_conference (r := room) (by simp [hcreated]) first.operation
    rw [Room.eq_of_mem_remaining hr, ← hnot]
    unfold isAt
    rw [hconference]
  cases second with
  | invite tokens request => exact haddress request.target rfl
  | message message => exact haddress message.target rfl
  | addParticipant a participant => exact haddress a rfl
  | removeParticipant a participant => exact haddress a rfl
  | sessionChanged session change =>
      have howned : session ∈ other.sessionsAround (.sessionChanged session change) :=
        List.mem_append_left _ (Room.ownsSession_iff.mp hconcerns)
      have hnot : ∀ r : Room, (∀ s ∈ r.sessions, s ∈ room.sessionsAround first.operation) →
          r.ownsSession session = false := by
        intro r hsub
        rw [← Bool.not_eq_true, Room.ownsSession_iff]
        intro hmem
        exact hapart session (hsub session hmem) howned
      refine ⟨hnot room fun s hs => List.mem_append_left _ hs, ?_⟩
      intro r hr
      rw [Room.eq_of_mem_remaining hr]
      exact hnot _ fun s hs => List.mem_append_right _ hs

theorem addressee?_passedOn (hfirst : d.addressee? first = some room)
    (hsecond : d.addressee? second = some other) (hroom : second.concerns room = false)
    (hremaining : ∀ r ∈ (room.step first.operation).2.1.remaining, second.concerns r = false) :
    (d.passedOn first room).addressee? second = some other := by
  obtain ⟨hfactory, hother⟩ := of_addressee? hsecond
  show (if second.isForFactory d.factory then none else
    (substitute first.concerns _ d.rooms).find? second.concerns) = _
  rw [if_neg (by simp [hfactory])]
  exact find?_substitute (of_addressee? hfirst).2 hother hroom hremaining

theorem Sound.passedOn (h : Sound d) (hroom : d.addressee? request = some room) :
    Sound (d.passedOn request room) := by
  have hstep := (step_turnover h request).sound h
  rw [step_of_addressee h hroom] at hstep
  exact hstep

theorem serve_pair (h : Sound d) (hfirst : d.addressee? first = some room)
    (hsecond : (d.passedOn first room).addressee? second = some other) :
    d.serve [first, second] =
      ([first.reply (room.step first.operation).1, second.reply (other.step second.operation).1],
        (d.passedOn first room).passedOn second other,
        (room.step first.operation).2.2 ++ (other.step second.operation).2.2) := by
  rw [serve_cons, step_of_addressee h hfirst, serve_cons,
    step_of_addressee (h.passedOn hfirst) hsecond, serve_nil, List.append_nil]

/-- What the room at an address makes happen while requests are served in
order. -/
def effectsAt (a : Address) (d : Directory) : List Request → List Effect
  | [] => []
  | request :: rest =>
    (if (d.addressee? request).any (isAt a) then (d.step request).2.2 else [])
      ++ effectsAt a (d.step request).2.1 rest

theorem effectsAt_pair (h : Sound d) (a : Address) (hfirst : d.addressee? first = some room)
    (hsecond : (d.passedOn first room).addressee? second = some other) :
    d.effectsAt a [first, second] =
      (if isAt a room then (room.step first.operation).2.2 else [])
        ++ if isAt a other then (other.step second.operation).2.2 else [] := by
  have hstep := step_of_addressee h hfirst
  have hstep' := step_of_addressee (h.passedOn hfirst) hsecond
  simp only [effectsAt, hfirst, hstep, hsecond, hstep', Option.any_some, List.append_nil]

/-- **Rooms are isolated.** In a directory that has come from any history, a
request to the factory leaves every room as it is, a request that concerns no
room changes nothing, and any other changes or drops the one room it is passed
to. Two requests to two rooms can be exchanged if no session belongs to both
rooms before or after: either way each room answers and makes happen what it
would alone, and the same directory is left. -/
theorem rooms_isolated (h : Served d turns) :
    (∀ request,
      (request.isForFactory d.factory = true → ∃ new : List Room, new.length ≤ 1 ∧
        (d.step request).2.1 = { d with rooms := d.rooms ++ new }) ∧
      (request.isForFactory d.factory = false →
        (∀ room ∈ d.rooms, request.concerns room = false) → (d.step request).2.1 = d) ∧
      ∀ room, d.addressee? request = some room → ∃ front back,
        d.rooms = front ++ room :: back ∧
          ((d.step request).2.1 = { d with rooms := front ++ back } ∨
            (d.step request).2.1 =
              { d with rooms := front ++ (room.step request.operation).2.1 :: back })) ∧
      ∀ first second room other, d.addressee? first = some room →
        d.addressee? second = some other → room ≠ other →
        (∀ s ∈ room.sessionsAround first.operation,
          s ∉ other.sessionsAround second.operation) →
        (∃ after,
          d.serve [first, second] =
            ([first.reply (room.step first.operation).1,
              second.reply (other.step second.operation).1], after,
              (room.step first.operation).2.2 ++ (other.step second.operation).2.2) ∧
          d.serve [second, first] =
            ([second.reply (other.step second.operation).1,
              first.reply (room.step first.operation).1], after,
              (other.step second.operation).2.2 ++ (room.step first.operation).2.2)) ∧
        ∀ a, d.effectsAt a [first, second] = d.effectsAt a [second, first] := by
  have hsound := h.sound
  constructor
  · intro request
    refine ⟨step_of_factory, step_of_nobody, ?_⟩
    intro room hroom
    rw [step_of_addressee hsound hroom]
    obtain ⟨front, back, hrooms, hnew⟩ := substitute_of_find? (of_addressee? hroom).2
      (room.step request.operation).2.1.remaining
    refine ⟨front, back, hrooms, ?_⟩
    show d.passedOn request room = _ ∨ d.passedOn request room = _
    unfold passedOn
    rw [hnew]
    unfold Room.remaining
    split
    · left
      rw [List.append_nil]
    · right
      rw [List.append_assoc, List.singleton_append]
  · intro first second room other hfirst hsecond hne hapart
    obtain ⟨hq, hnew⟩ := not_concerned hsound hfirst hsecond hne hapart
    obtain ⟨hp, hfresh⟩ := not_concerned hsound hsecond hfirst hne.symm
      fun s hs hs' => hapart s hs' hs
    have hthen := addressee?_passedOn hfirst hsecond hq hnew
    have hthen' := addressee?_passedOn hsecond hfirst hp hfresh
    have hafter : (d.passedOn second other).passedOn first room =
        (d.passedOn first room).passedOn second other := by
      have hrooms := substitute_comm (of_addressee? hfirst).2 (of_addressee? hsecond).2 hq
        hnew hfresh
      show ({ d with rooms := substitute _ _ (substitute _ _ d.rooms) } : Directory) = _
      rw [← hrooms]
      rfl
    constructor
    · refine ⟨_, serve_pair hsound hfirst hthen, ?_⟩
      rw [serve_pair hsound hsecond hthen', hafter]
    · intro a
      rw [effectsAt_pair hsound a hfirst hthen, effectsAt_pair hsound a hsecond hthen']
      by_cases hroom : isAt a room = true
      -- the other room is not reached at the same address
      · have hother : isAt a other = false := by
          rw [← Bool.not_eq_true]
          intro hat
          exact hne (hsound.eq_of_isAt (addressee?_mem hfirst).1 (addressee?_mem hsecond).1
            hroom hat)
        simp [hother]
      · simp [hroom]

/-- Of two rooms the one ends when its only participant is taken out, the other
when the session of its only participant ends. -/
theorem rooms_isolated_at_their_ends :
    let factory : Address := { user? := some "factory", host := "localhost" }
    let alice : Address := { user? := some "alice", host := "localhost" }
    let carol : Address := { user? := some "carol", host := "localhost" }
    let room : Address := { user? := some "chatroom-a", host := "localhost" }
    let other : Address := { user? := some "chatroom-b", host := "localhost" }
    let call (sender target : Address) (session : String) : Request :=
      .invite (fun i => if i = 0 then "a" else "b")
        { session := ⟨session⟩, sender, target, contact := sender }
    let requests := [call alice factory "1", call carol factory "2", call alice room "3",
      call carol other "4"]
    let first : Request := .removeParticipant room alice
    let second : Request := .sessionChanged ⟨"4"⟩ .ended
    ∃ d turns, Served d turns ∧ turns.map Turn.request = requests ∧ d.rooms.length = 2 ∧
      (d.serve [second, first]).2.1 = (d.serve [first, second]).2.1 ∧
      (d.serve [second, first]).2.1.rooms = [] ∧
      Room.closings (d.effectsAt room [second, first]) = [some room] := by
  intro factory alice carol room other call requests first second
  let opened : Directory := { factory, maxAttempts := 2 }
  let d := (opened.serve requests).2.1
  have hparse : Directory.parse "sip:factory@localhost" 2 = .ok opened := by decide +kernel
  obtain ⟨turns, hserved, hrequests, -⟩ := (Served.opened hparse).serve requests
  rw [List.nil_append] at hserved
  have hfirst : (d.addressee? first).isSome = true := by decide +kernel
  have hsecond : (d.addressee? second).isSome = true := by decide +kernel
  have hne : ∀ hfirst hsecond,
      (d.addressee? first).get hfirst ≠ (d.addressee? second).get hsecond := by decide +kernel
  have hapart : ∀ hfirst hsecond,
      ∀ s ∈ ((d.addressee? first).get hfirst).sessionsAround first.operation,
        s ∉ ((d.addressee? second).get hsecond).sessionsAround second.operation := by
    decide +kernel
  have hrooms : (d.serve [first, second]).2.1.rooms = [] := by decide +kernel
  have hclosings : Room.closings (d.effectsAt room [first, second]) = [some room] := by
    decide +kernel
  obtain ⟨-, hpair⟩ := rooms_isolated hserved
  obtain ⟨⟨after, hserve, hserve'⟩, heffects⟩ := hpair first second _ _
    (Option.some_get hfirst).symm (Option.some_get hsecond).symm (hne hfirst hsecond)
    (hapart hfirst hsecond)
  refine ⟨d, turns, hserved, hrequests, by decide +kernel, ?_, ?_, ?_⟩
  · rw [hserve, hserve']
  · rw [hserve', ← hrooms, hserve]
  · rw [← heffects room, hclosings]

end Directory

end Switchboard
