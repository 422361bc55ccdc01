import Switchboard.Proofs.Room.Administrator
import Switchboard.Proofs.Room.Replica

/-!
# Moves as chains of ticks

A tick is the least that can happen in a room: one answer or request goes
out, something changes that no listener can see, or one change is made and
told at once. Every move but the search for an address is a chain of ticks,
so nothing that a replica shows changes without its notice.
-/

namespace Switchboard.Room

/-- When a room may tell of an event: participants come only while it takes
any, and it ends only from being created and with nobody left. -/
def Due (r : Room) : Event → Prop
  | .participantAdded _ => r.liveAddress?.isSome
  | .stateChanged state => state = .terminated ∧ r.state = .created ∧ r.roster.active = []
  | _ => True

inductive Tick : Room → Room × List Effect → Prop
  | signal (r : Room) (effect : Effect) (h : ∀ notice, effect ≠ .notify notice) :
      Tick r (emit effect r)
  | unseen {r r' : Room} (replica : r'.replica = r.replica) (sequence : r'.sequence = r.sequence)
      (conference : r'.conference? = r.conference?) : Tick r (r', [])
  | tell {r r' : Room} {event : Event} (due : Due r event)
      (replica : r'.replica = r.replica.apply event) (sequence : r'.sequence = r.sequence)
      (conference : r'.conference? = r.conference?) : Tick r (notify event r')

variable {r : Room} {a : Address} {out : Room × List Effect}

/-! ## Single changes -/

theorem ticks_setSubject (subject : String) (r : Room) : Chain Tick r (setSubject subject r) := by
  unfold setSubject
  split
  · exact .nil r
  · exact .single (.tell trivial rfl rfl rfl)

theorem ticks_setAdmin (a : Address) (isAdmin : Bool) (h : Roster.Distinct r.roster.active) :
    Chain Tick r (setAdmin a isAdmin r) := by
  unfold setAdmin
  split
  · exact .nil r
  · rename_i p hfind
    split
    · exact .nil r
    · refine .single (.tell trivial ?_ rfl rfl)
      have hmembers := members_setAdmin h hfind isAdmin
      exact congrArg (Replica.mk r.state r.subject) hmembers

theorem ticks_setAdmins (as : List Address) (isAdmin : Bool)
    (h : Roster.Distinct r.roster.active) :
    Chain Tick r (Change.sequence (as.map fun a => setAdmin a isAdmin) r) := by
  induction as generalizing r with
  | nil => exact .nil r
  | cons a as ih =>
      rw [List.map_cons, sequence_cons]
      exact (ticks_setAdmin a isAdmin h).andThen (ih (distinct_setAdmin a isAdmin h))

theorem ticks_connect (request : Invite) (r : Room) : Chain Tick r (connect request r) := by
  refine .single (.unseen ?_ rfl rfl)
  have hmembers : (r.roster.modify request.sender fun p =>
      { p with session? := some request.session, contact := request.contact }).active.map
        Participant.member = r.roster.active.map Participant.member :=
    Roster.map_update fun _ => rfl
  exact congrArg (Replica.mk r.state r.subject) hmembers

/-! ## Arrivals -/

theorem replica_isEmpty : r.replica.members.isEmpty = true ↔ r.roster.active = [] := by
  rw [List.isEmpty_iff, replica, List.map_eq_nil_iff]

/-- Whoever comes is administrator exactly if it comes first, as the replica
supposes. -/
theorem ticks_enter {p : Participant} (hlive : r.liveAddress?.isSome)
    (hnew : r.roster.find? p.address = none)
    (hadmin : p.isAdmin = true ↔ r.roster.active = []) : Chain Tick r (enter p r) := by
  refine .single (.tell hlive ?_ rfl rfl)
  have hmember : p.member = (p.address, r.replica.members.isEmpty) := by
    have hflag : p.isAdmin = r.replica.members.isEmpty := by
      rw [Bool.eq_iff_iff, hadmin, replica_isEmpty]
    rw [← hflag]
    rfl
  have hmembers : (r.roster.add p).active.map Participant.member =
      r.replica.members ++ [(p.address, r.replica.members.isEmpty)] := by
    rw [Roster.add_active_of_none hnew, List.map_append, List.map_singleton, hmember]
    rfl
  exact congrArg (Replica.mk r.state r.subject) hmembers

/-! ## Departures -/

theorem ticks_delete (hstate : r.state = .created) (hempty : r.roster.active = []) :
    Chain Tick r (delete r) := by
  have hne : ¬r.state = .terminated := by simp [hstate]
  unfold delete
  rw [if_neg hne]
  refine Chain.andThen ?_ (.single (.tell trivial rfl rfl rfl))
  unfold setState
  rw [if_neg hne]
  exact .single (.tell ⟨rfl, hstate, hempty⟩ rfl rfl rfl)

theorem ticks_settle (hstate : r.state = .created) (h : Roster.Distinct r.roster.active) :
    Chain Tick r (settle r) := by
  unfold settle
  split
  · rename_i hempty
    exact ticks_delete hstate hempty
  · rename_i oldest rest _
    split
    · exact .nil r
    · exact ticks_setAdmin oldest.address true h

theorem ticks_depart (a : Address) (hstate : r.state = .created)
    (h : Roster.Distinct r.roster.active) : Chain Tick r (depart a r) := by
  unfold depart
  split
  · exact .nil r
  · rename_i p hfind
    have hmembers := members_remove h hfind
    have htell : Tick r (notify (.participantRemoved p.address)
        { r with roster := r.roster.remove a }) :=
      .tell trivial (congrArg (Replica.mk r.state r.subject) hmembers) rfl rfl
    exact (Chain.single htell).append (ticks_settle hstate h.remove)

/-! ## Moves -/

theorem Visit.ticks (h : Visit r out) : Chain Tick r out := by
  cases h with
  | emit effect h => exact .single (.signal r effect h)
  | tell recipient => exact .single (.tell trivial rfl rfl rfl)
  | setSubject subject => exact ticks_setSubject subject r
  | found a hlive hempty =>
      have hnew : r.roster.find? a = none := by simp [Roster.find?, hempty]
      exact ticks_enter hlive hnew (by simp [hempty])
  | welcome a hlive hsome hnew =>
      exact ticks_enter hlive hnew (by simp [hsome, Participant.ofAddress])
  | connect request _ _ => exact ticks_connect request r

/-- A move searches for an address, or is a chain of ticks. -/
theorem Move.ticks (h : Move r out) (hdistinct : Roster.Distinct r.roster.active)
    (hcreated : r.roster.active ≠ [] → r.state = .created) :
    Chain Tick r out ∨ r.state = .instantiated ∧
      ∃ taken tokens attempts, out = (r.establish taken tokens attempts).2 := by
  cases h with
  | visit h => exact .inl h.ticks
  | establish taken tokens attempts h => exact .inr ⟨h, taken, tokens, attempts, rfl⟩
  | depart a hfind =>
      obtain ⟨p, hp⟩ := Option.isSome_iff_exists.mp hfind
      have hsome : r.roster.active ≠ [] := List.ne_nil_of_mem (Roster.mem_of_find? hp)
      exact .inl (ticks_depart a (hcreated hsome) hdistinct)
  | transfer a hfind =>
      obtain ⟨p, hp⟩ := Option.isSome_iff_exists.mp hfind
      rw [transferAdmin_of_find? hp]
      exact .inl ((ticks_setAdmin a true hdistinct).andThen
        (ticks_setAdmins _ false (distinct_setAdmin a true hdistinct)))
  | forget session => exact .inl (.single (.unseen rfl rfl rfl))

end Switchboard.Room
