import Switchboard.Proofs.Room.Change
import Switchboard.Room.Operation

/-!
# Operations as chains of moves

An operation on a room is a chain of moves. A visit is a move that only
answers, tells, adds or connects somebody or sets the subject; the other moves
establish the room, take somebody out, hand the role of administrator over or
forget a removed participant. What each move keeps, every operation and every
history keeps.
-/

namespace Switchboard.Room

/-! ## Chains -/

/-- Moves one after another, with all their effects. -/
inductive Chain (M : Room → Room × List Effect → Prop) : Room → Room × List Effect → Prop
  | nil (r : Room) : Chain M r (r, [])
  | cons {r : Room} {first last : Room × List Effect} (move : M r first)
      (rest : Chain M first.1 last) : Chain M r (last.1, first.2 ++ last.2)

namespace Chain

variable {M N : Room → Room × List Effect → Prop} {r : Room} {out : Room × List Effect}

theorem single (h : M r out) : Chain M r out := by
  have hchain := Chain.cons h (.nil out.1)
  rwa [List.append_nil] at hchain

theorem append {first last : Room × List Effect} (h : Chain M r first)
    (hlast : Chain M first.1 last) : Chain M r (last.1, first.2 ++ last.2) := by
  induction h with
  | nil r => exact hlast
  | cons move rest ih =>
      rw [List.append_assoc]
      exact .cons move (ih hlast)

theorem mono (hsub : ∀ r out, M r out → N r out) (h : Chain M r out) : Chain N r out := by
  induction h with
  | nil r => exact .nil r
  | cons move rest ih => exact .cons (hsub _ _ move) ih

/-- A relation that moves one after another keep, every chain keeps. -/
theorem lift {P : Room → Room × List Effect → Prop} (refl : ∀ r, P r (r, []))
    (trans : ∀ r first last, P r first → P first.1 last → P r (last.1, first.2 ++ last.2))
    (move : ∀ r out, M r out → P r out) (h : Chain M r out) : P r out := by
  induction h with
  | nil r => exact refl r
  | cons first rest ih => exact trans _ _ _ (move _ _ first) ih

theorem andThen {first second : Change} (h : Chain M r (first r))
    (hsecond : Chain M (first r).1 (second (first r).1)) :
    Chain M r (first.andThen second r) :=
  h.append hsecond

end Chain

/-! ## Moves -/

/-- Moves that take nobody out: answers and messages, notices of messages
that were dispatched, new subjects, arrivals and new sessions. -/
inductive Visit : Room → Room × List Effect → Prop
  | emit (r : Room) (effect : Effect) (h : ∀ notice, effect ≠ .notify notice) :
      Visit r (Room.emit effect r)
  | tell (r : Room) (recipient : Address) :
      Visit r (notify (.messageDispatched recipient) r)
  | setSubject (r : Room) (subject : String) : Visit r (Room.setSubject subject r)
  /-- The first participant of a room is its administrator. -/
  | found (r : Room) (a : Address) (hlive : r.liveAddress?.isSome)
      (hempty : r.roster.active = []) :
      Visit r (enter { Participant.ofAddress a with isAdmin := true } r)
  | welcome (r : Room) (a : Address) (hlive : r.liveAddress?.isSome)
      (hsome : r.roster.active ≠ []) (hnew : r.roster.find? a = none) :
      Visit r (enter (.ofAddress a) r)
  | connect (r : Room) (request : Invite) (hlive : r.liveAddress?.isSome)
      (h : (r.roster.find? request.sender).isSome) : Visit r (Room.connect request r)

inductive Move : Room → Room × List Effect → Prop
  | visit {r : Room} {out : Room × List Effect} (h : Visit r out) : Move r out
  | establish (r : Room) (taken : Address → Bool) (tokens : Nat → String) (attempts : Nat)
      (h : r.state = .instantiated) : Move r (r.establish taken tokens attempts).2
  | depart (r : Room) (a : Address) (h : (r.roster.find? a).isSome) : Move r (Room.depart a r)
  | transfer (r : Room) (a : Address) (h : (r.roster.find? a).isSome) :
      Move r (r.transferAdmin a).2
  | forget (r : Room) (session : Session) :
      Move r ({ r with roster := r.roster.discard session }, [])

/-! ## Operations that visit -/

theorem visits_invite (a : Address) (r : Room) : Chain Visit r (r.invite a).2 := by
  unfold invite
  split
  · exact .nil r
  · rename_i conference hlive
    split
    · exact .nil r
    · rename_i hsome
      split
      · exact .nil r
      · rename_i hnew
        dsimp only
        refine Chain.andThen (.single (Visit.emit r _ (by simp))) (.single ?_)
        exact Visit.welcome r a (by simp [hlive]) hsome (by simpa using hnew)

theorem visits_inviteAll (as : List Address) (r : Room) : Chain Visit r (inviteAll as r).2 := by
  induction as generalizing r with
  | nil => exact .nil r
  | cons a rest ih =>
      have hfirst := visits_invite a r
      unfold inviteAll
      split
      · rename_i e r₁ effects₁ heq
        rw [heq] at hfirst
        exact hfirst
      · rename_i r₁ effects₁ heq
        rw [heq] at hfirst
        exact hfirst.append (ih r₁)

theorem visits_comply (request : Invite) (r : Room) : Chain Visit r (comply request r) := by
  refine Chain.andThen ?_ (visits_inviteAll _ _)
  cases request.subject? with
  | none => exact .nil r
  | some subject => exact .single (.setSubject r subject)

theorem visits_deliver (conference : Address) (content : Content)
    (recipients : List Participant) (r : Room) :
    Chain Visit r (Change.sequence (recipients.map (deliver conference content)) r) := by
  induction recipients generalizing r with
  | nil => exact .nil r
  | cons p rest ih =>
      rw [List.map_cons, sequence_cons]
      refine Chain.andThen ?_ (ih _)
      exact Chain.andThen (.single (Visit.emit r _ (by simp))) (.single (.tell _ p.address))

theorem visits_dispatch (sender : Address) (content : Content) (r : Room) :
    Chain Visit r (r.dispatch sender content).2 := by
  unfold dispatch
  split
  · exact .nil r
  · rename_i conference _
    exact visits_deliver conference content _ r

theorem visits_relay (message : IncomingMessage) (r : Room) :
    Chain Visit r (r.relay message).2 := by
  unfold relay
  split
  · exact .nil r
  · split
    · exact .nil r
    · exact visits_dispatch message.sender message.content r

theorem visits_comeFirst (sender : Address) (r : Room) (hlive : r.liveAddress?.isSome) :
    Chain Visit r (comeFirst sender r) := by
  unfold comeFirst
  split
  · rename_i hempty
    exact .single (.found r sender hlive hempty)
  · exact .nil r

theorem visits_receive (request : Invite) (conference : Address) (isAdmin : Bool) (r : Room)
    (hlive : r.liveAddress?.isSome) (hfind : (r.roster.find? request.sender).isSome) :
    Chain Visit r (receive request conference isAdmin r) := by
  unfold receive
  rw [sequence_cons, sequence_cons, sequence_cons]
  refine Chain.andThen (.single (Visit.connect r request hlive hfind)) ?_
  refine Chain.andThen (.single (Visit.emit _ _ (by simp))) ?_
  refine Chain.andThen ?_ (.nil _)
  split
  · exact visits_comply request _
  · exact .nil _

theorem visits_join (request : Invite) (r : Room) : Chain Visit r (r.join request).2 := by
  cases hlive : r.liveAddress? with
  | none =>
      rw [join_of_none hlive]
      exact .single (Visit.emit r _ (by simp))
  | some conference =>
      have hfirst := visits_comeFirst request.sender r (by simp [hlive])
      cases hfind : (comeFirst request.sender r).1.roster.find? request.sender with
      | none =>
          rw [join_of_stranger hlive hfind]
          exact hfirst.append (.single (Visit.emit _ _ (by simp)))
      | some p =>
          rw [join_of_participant hlive hfind]
          refine hfirst.andThen (visits_receive request conference p.isAdmin _ ?_ ?_)
          · simp [hlive]
          · simp [hfind]

/-! ## Every operation -/

theorem moves_of_visits {r : Room} {out : Room × List Effect} (h : Chain Visit r out) :
    Chain Move r out :=
  h.mono fun _ _ => .visit

theorem moves_establish (taken : Address → Bool) (tokens : Nat → String) (attempts : Nat)
    (r : Room) : Chain Move r (r.establish taken tokens attempts).2 := by
  by_cases h : r.state = .instantiated
  · exact .single (.establish r taken tokens attempts h)
  · unfold establish
    rw [if_pos h]
    exact .nil r

theorem moves_expel (a : Address) (r : Room) : Chain Move r (r.expel a).2 := by
  unfold expel
  split
  · exact .nil r
  · split
    · exact .nil r
    · rename_i p hfind
      dsimp only
      refine Chain.andThen (.single (Move.visit (.emit r _ (by simp)))) (.single ?_)
      exact Move.depart r a (by simp [hfind])

theorem moves_transferAdmin (a : Address) (r : Room) : Chain Move r (r.transferAdmin a).2 := by
  cases h : r.roster.find? a with
  | none =>
      unfold transferAdmin
      rw [h]
      exact .nil r
  | some p => exact .single (.transfer r a (by simp [h]))

theorem moves_sessionChanged (session : Session) (change : SessionChange) (r : Room) :
    Chain Move r (sessionChanged session change r) := by
  cases change with
  | connected => exact .nil r
  | updated request =>
      unfold sessionChanged
      cases r.roster.bySession? session with
      | none => exact .nil r
      | some p =>
          dsimp only
          split
          · exact moves_of_visits (visits_comply request r)
          · exact .nil r
  | ended =>
      unfold sessionChanged
      dsimp only
      refine Chain.andThen ?_ (.single (Move.forget _ session))
      cases h : r.roster.bySession? session with
      | none => exact .nil r
      | some p =>
          -- the room looks for the party of this participant, and finds one
          exact .single (.depart r p.address
            (Roster.find?_isSome_of_mem (Roster.bySession?_mem h)))

theorem step_establish (taken : Address → Bool) (tokens : Nat → String) (attempts : Nat)
    (r : Room) : (r.step (.establish taken tokens attempts)).2 =
      (r.establish taken tokens attempts).2 := by
  unfold step
  dsimp only
  split
  · rename_i heq
    rw [heq]
  · rename_i heq
    rw [heq]

theorem moves_step (r : Room) (op : Operation) : Chain Move r (r.step op).2 := by
  cases op with
  | establish taken tokens attempts =>
      rw [step_establish]
      exact moves_establish taken tokens attempts r
  | join request => exact moves_of_visits (visits_join request r)
  | comply request => exact moves_of_visits (visits_comply request r)
  | invite a => exact moves_of_visits (visits_invite a r)
  | inviteAll as => exact moves_of_visits (visits_inviteAll as r)
  | expel a => exact moves_expel a r
  | transferAdmin a => exact moves_transferAdmin a r
  | setSubject subject => exact .single (.visit (.setSubject r subject))
  | dispatch sender content => exact moves_of_visits (visits_dispatch sender content r)
  | relay message => exact moves_of_visits (visits_relay message r)
  | sessionChanged session change => exact moves_sessionChanged session change r

/-- **A history is a chain of moves.** What every move keeps holds of every
room that a history leads to. -/
theorem moves_run (r : Room) (ops : List Operation) : Chain Move r (r.run ops) := by
  induction ops generalizing r with
  | nil => exact .nil r
  | cons op rest ih =>
      rw [run_cons]
      exact (moves_step r op).append (ih _)

end Switchboard.Room
