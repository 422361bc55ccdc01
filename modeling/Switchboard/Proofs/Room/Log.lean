import Switchboard.Proofs.Room.Stage

/-!
# The log of a room

The notices of a room are numbered from one without a gap, they name the room
from the moment it has an address, and a replica that replays them is the
replica of the room. All three are kept together, notice by notice.
-/

namespace Switchboard.Room

/-- The first notices name no room. The one that tells that the room is
created, and all after it, name it by this address. -/
def Named (room? : Option Address) (log : List Notice) : Prop :=
  ∃ early late, log = early ++ late ∧ (∀ notice ∈ early, notice.room? = none) ∧
    (∀ notice ∈ late, notice.room? = room?) ∧
    late.head?.map (·.event) = room?.map fun _ => .stateChanged .created

variable {r r' : Room} {out : Room × List Effect} {log : List Notice} {notice : Notice}
  {room? : Option Address}

theorem named_nil : Named none [] :=
  ⟨[], [], rfl, by simp, by simp, rfl⟩

/-- A notice that names the room by the address it has goes to the end. -/
theorem Named.snoc (h : Named room? log) (hnotice : notice.room? = room?) :
    Named room? (log ++ [notice]) := by
  obtain ⟨early, late, rfl, hearly, hlate, hhead⟩ := h
  cases late with
  | nil =>
      -- nothing has named the room yet, so it has no address and the notice names none
      have hnone : room? = none := by simpa using hhead.symm
      refine ⟨early ++ [notice], [], by simp, ?_, by simp, by simp [hnone]⟩
      intro n hn
      rcases List.mem_append.mp hn with hn | hn
      · exact hearly n hn
      · rw [List.mem_singleton.mp hn, hnotice, hnone]
  | cons first rest =>
      refine ⟨early, first :: (rest ++ [notice]), by simp, hearly, ?_, hhead⟩
      intro n hn
      rw [← List.cons_append] at hn
      rcases List.mem_append.mp hn with hn | hn
      · exact hlate n hn
      · rw [List.mem_singleton.mp hn, hnotice]

/-- The notice of the creation is the first to name the room. -/
theorem Named.created (h : Named room? log) (hnone : room? = none) {a : Address}
    (hroom : notice.room? = some a) (hevent : notice.event = .stateChanged .created) :
    Named (some a) (log ++ [notice]) := by
  subst hnone
  obtain ⟨early, late, rfl, hearly, hlate, hhead⟩ := h
  refine ⟨early ++ late, [notice], rfl, ?_, by simp [hroom], by simp [hevent]⟩
  intro n hn
  rcases List.mem_append.mp hn with hn | hn
  · exact hearly n hn
  · exact hlate n hn

theorem numbers_snoc (h : log.map (·.sequence) = List.range' 1 log.length)
    (hnotice : notice.sequence = log.length + 1) :
    (log ++ [notice]).map (·.sequence) = List.range' 1 (log ++ [notice]).length := by
  rw [List.map_append, h, List.map_singleton, hnotice, List.length_append, List.length_singleton,
    List.range'_1_concat, Nat.add_comm 1]

/-! ## Logs that tell everything -/

/-- The log tells how the room came about, to whoever started with this
replica. -/
structure Told (start : Replica) (r : Room) (log : List Notice) : Prop where
  last : r.sequence = log.length
  numbers : log.map (·.sequence) = List.range' 1 log.length
  named : Named r.conference? log
  replayed : start.replay log = r.replica

namespace Told

variable {start : Replica}

theorem congr (h : Told start r log) (hreplica : r'.replica = r.replica)
    (hsequence : r'.sequence = r.sequence) (hconference : r'.conference? = r.conference?) :
    Told start r' log where
  last := hsequence.trans h.last
  numbers := h.numbers
  named := hconference ▸ h.named
  replayed := h.replayed.trans hreplica.symm

/-- One more notice tells one more change. -/
theorem snoc (h : Told start r log) (hnumber : notice.sequence = r.sequence + 1)
    (hlast : r'.sequence = r.sequence + 1) (hnamed : Named r'.conference? (log ++ [notice]))
    (hreplica : r'.replica = r.replica.apply notice.event) : Told start r' (log ++ [notice]) where
  last := by rw [hlast, h.last, List.length_append, List.length_singleton]
  numbers := numbers_snoc h.numbers (by rw [hnumber, h.last])
  named := hnamed
  replayed := by
    rw [Replica.replay_append, h.replayed, hreplica]
    rfl

theorem tick (h : Tick r out) (hr : Told start r log) :
    Told start out.1 (log ++ notices out.2) := by
  cases h with
  | signal effect hsignal =>
      have hnone : notices (emit effect r).2 = [] := notices_of_signal hsignal
      rw [hnone, List.append_nil]
      exact hr
  | unseen hreplica hsequence hconference =>
      rw [notices_nil, List.append_nil]
      exact hr.congr hreplica hsequence hconference
  | tell _ hreplica hsequence hconference =>
      have hnamed := hconference ▸ hr.named
      exact hr.snoc (congrArg (· + 1) hsequence) (congrArg (· + 1) hsequence)
        (hnamed.snoc rfl) hreplica

theorem search (taken : Address → Bool) (tokens : Nat → String) (attempts : Nat)
    (h : r.state = .instantiated) (hnone : r.conference? = none) (hr : Told start r log) :
    Told start (r.establish taken tokens attempts).2.1
      (log ++ notices (r.establish taken tokens attempts).2.2) := by
  -- the first of the two notices goes out while the room has no address
  have hpending : Told start { r with state := .creationPending, sequence := r.sequence + 1 }
      (log ++ [⟨r.conference?, r.sequence + 1, .stateChanged .creationPending⟩]) :=
    hr.snoc rfl rfl (hr.named.snoc rfl) rfl
  rcases establish_log taken tokens attempts h with ⟨a, hroom, hlog⟩ | ⟨hroom, hlog⟩
  · rw [hroom, hlog, List.append_cons]
    exact hpending.snoc rfl rfl (hpending.named.created hnone rfl rfl) rfl
  · rw [hroom, hlog, List.append_cons]
    exact hpending.snoc rfl rfl (hpending.named.snoc rfl) rfl

end Told

theorem kept_told (start : Replica) :
    Kept fun r log => Stage r (toldStates log) ∧ Told start r log where
  stage := And.left
  tick := fun h hr => ⟨h.stage hr.1, hr.2.tick h⟩
  search := fun taken tokens attempts h hr =>
    ⟨establish_stage taken tokens attempts h hr.1,
      hr.2.search taken tokens attempts h (hr.1.conference_eq_none h)⟩

theorem run_told (invite : Invite) (ops : List Operation) :
    Told { subject := invite.subject?.getD "" } ((ofInvite invite).run ops).1
      (notices ((ofInvite invite).run ops).2) :=
  ((kept_told _).run ⟨.fresh rfl rfl rfl, rfl, rfl, named_nil, rfl⟩ ops).2

/-- **The log tells everything, in order.** After any history the notices are
numbered from one without a gap, those before the room has its address name no
room and the later ones name it by its address, and whoever replays them from
the subject of the invitation has the state, the subject and the participants
of the room, with their roles. -/
theorem log_tells_everything (invite : Invite) (ops : List Operation) :
    let room := ((ofInvite invite).run ops).1
    let log := notices ((ofInvite invite).run ops).2
    log.map (·.sequence) = List.range' 1 log.length ∧
      (∃ early late, log = early ++ late ∧ (∀ notice ∈ early, notice.room? = none) ∧
        (∀ notice ∈ late, notice.room? = room.conference?) ∧
        late.head?.map (·.event) = room.conference?.map fun _ => .stateChanged .created) ∧
      Replica.replay ⟨.instantiated, invite.subject?.getD "", []⟩ log =
        ⟨room.state, room.subject, room.roster.active.map fun p => (p.address, p.isAdmin)⟩ := by
  have h := run_told invite ops
  exact ⟨h.numbers, h.named, h.replayed⟩

end Switchboard.Room
