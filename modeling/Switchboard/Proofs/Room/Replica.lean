import Switchboard.Proofs.Room.Roster
import Switchboard.Room.Basic

/-!
# Replicas

A listener can keep a replica of a room: its state, its subject and its
participants in order, each with the role of administrator or without. The
replica is changed by the notices alone, so it is right only as long as every
change of the room is told.
-/

namespace Switchboard.Room

/-! ## Notices among the effects -/

def Effect.notice? : Effect → Option Notice
  | .notify notice => some notice
  | _ => none

/-- The notices among some effects, in order. -/
def notices (effects : List Effect) : List Notice :=
  effects.filterMap Effect.notice?

@[simp] theorem notices_nil : notices [] = [] := rfl

@[simp] theorem notices_append (first last : List Effect) :
    notices (first ++ last) = notices first ++ notices last :=
  List.filterMap_append

theorem notices_of_signal {effect : Effect} (h : ∀ notice, effect ≠ .notify notice) :
    notices [effect] = [] := by
  cases effect with
  | notify notice => exact absurd rfl (h notice)
  | _ => rfl

/-- Signals that go out one after another, each told right after it; `last` is
the number of the notice before them. -/
def announced (room? : Option Address) (last : Nat) : List (Effect × Event) → List Effect
  | [] => []
  | (signal, event) :: rest =>
    signal :: .notify ⟨room?, last + 1, event⟩ :: announced room? (last + 1) rest

theorem announced_append (room? : Option Address) (last : Nat)
    (first later : List (Effect × Event)) :
    announced room? last (first ++ later) =
      announced room? last first ++ announced room? (last + first.length) later := by
  induction first generalizing last with
  | nil => rfl
  | cons signal rest ih =>
      rw [List.cons_append, announced, announced, ih, List.length_cons, Nat.add_right_comm,
        Nat.add_assoc]
      rfl

/-! ## The replica -/

structure Replica where
  state : State := .instantiated
  subject : String
  /-- Addresses of the participants, and whether they are administrators. -/
  members : List (Address × Bool) := []
  deriving DecidableEq, Repr

namespace Replica

/-- The replica after an event. Whoever is added to an empty room is taken for
its administrator. -/
def apply (m : Replica) : Event → Replica
  | .participantAdded a => { m with members := m.members ++ [(a, m.members.isEmpty)] }
  | .participantRemoved a => { m with members := m.members.filter fun member => member.1 ≠ a }
  | .adminChanged a isAdmin =>
    { m with members := m.members.map fun member => if member.1 = a then (a, isAdmin) else member }
  | .subjectChanged subject => { m with subject }
  | .stateChanged state => { m with state }
  | .messageDispatched _ | .deleted => m

/-- The replica after a list of notices. -/
def replay (m : Replica) (log : List Notice) : Replica :=
  log.foldl (fun m notice => m.apply notice.event) m

theorem replay_append (m : Replica) (first last : List Notice) :
    m.replay (first ++ last) = (m.replay first).replay last :=
  List.foldl_append

end Replica

/-- What a participant looks like in the replica. -/
def Participant.member (p : Participant) : Address × Bool :=
  (p.address, p.isAdmin)

/-- What the replica of the room should be. -/
def replica (r : Room) : Replica where
  state := r.state
  subject := r.subject
  members := r.roster.active.map Participant.member

/-! ## Changes of the roster as the replica sees them -/

section Members

variable {r : Roster} {a : Address} {p : Participant}

/-- Once a party has been found, its address alone tells it from the other
participants. -/
theorem Roster.sameParty_iff_of_find? (h : Roster.Distinct r.active) (hfind : r.find? a = some p)
    {q : Participant} (hq : q ∈ r.active) :
    q.address.sameParty a = true ↔ q.address = p.address := by
  have hp : p.address.sameParty a = true := by
    have hsome := List.find?_some hfind
    exact hsome
  constructor
  · intro hqa
    have hmem : q ∈ r.active.filter fun q => q.address.sameParty a :=
      List.mem_filter.mpr ⟨hq, hqa⟩
    have hone := Roster.filter_eq_find? (a := a) h
    rw [← Roster.find?, hfind, Option.toList_some] at hone
    rw [hone, List.mem_singleton] at hmem
    rw [hmem]
  · intro heq
    rw [heq]
    exact hp

theorem members_remove (h : Roster.Distinct r.active) (hfind : r.find? a = some p) :
    (r.remove a).active.map Participant.member =
      (r.active.map Participant.member).filter fun member => member.1 ≠ p.address := by
  rw [Roster.remove_active, Roster.eraseP_eq_filter h, List.filter_map]
  congr 1
  apply List.filter_congr
  intro q hq
  have hiff := Roster.sameParty_iff_of_find? h hfind hq
  simp [Participant.member, ← hiff]

theorem members_setAdmin (h : Roster.Distinct r.active) (hfind : r.find? a = some p)
    (isAdmin : Bool) :
    (r.modify a fun q => { q with isAdmin }).active.map Participant.member =
      (r.active.map Participant.member).map fun member =>
        if member.1 = p.address then (p.address, isAdmin) else member := by
  rw [Roster.modify, Roster.update_eq_map h, List.map_map, List.map_map]
  apply List.map_congr_left
  intro q hq
  have hiff := Roster.sameParty_iff_of_find? h hfind hq
  rw [Function.comp_apply, Function.comp_apply]
  by_cases hqa : q.address.sameParty a = true
  · have heq : q.member.1 = p.address := hiff.mp hqa
    rw [if_pos hqa, if_pos heq, ← heq]
    rfl
  · have hne : ¬q.member.1 = p.address := fun heq => hqa (hiff.mpr heq)
    rw [if_neg hqa, if_neg hne]

end Members

end Switchboard.Room
