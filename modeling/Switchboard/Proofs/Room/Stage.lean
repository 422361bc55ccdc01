import Switchboard.Proofs.Room.Tick

/-!
# The stages of a room

The state of a room, its address and the states it has told go together: a
room is fresh, opened, closed after having been opened, or failed without ever
having had an address. Only an opened room has participants. The stage is kept
by every tick and by the search for an address, and what both keep of a room
and its log is kept along every history.
-/

namespace Switchboard.Room

/-! ## States told -/

def Event.state? : Event → Option State
  | .stateChanged state => some state
  | _ => none

/-- The states that a log tells, in order. -/
def toldStates (log : List Notice) : List State :=
  log.filterMap fun notice => notice.event.state?

@[simp] theorem toldStates_nil : toldStates [] = [] := rfl

@[simp] theorem toldStates_append (first last : List Notice) :
    toldStates (first ++ last) = toldStates first ++ toldStates last :=
  List.filterMap_append

theorem toldStates_singleton (notice : Notice) :
    toldStates [notice] = notice.event.state?.toList := by
  unfold toldStates
  cases h : notice.event.state? <;> simp [h]

/-! ## Stages -/

/-- How far a room has come that has told these states. -/
inductive Stage (r : Room) : List State → Prop
  | fresh (state : r.state = .instantiated) (conference : r.conference? = none)
      (nobody : r.roster.active = []) : Stage r []
  | opened (state : r.state = .created) (conference : r.conference?.isSome) :
      Stage r [.creationPending, .created]
  | closed (state : r.state = .terminated) (conference : r.conference?.isSome)
      (nobody : r.roster.active = []) : Stage r [.creationPending, .created, .terminated]
  | failed (state : r.state = .terminated) (conference : r.conference? = none)
      (nobody : r.roster.active = []) : Stage r [.creationPending, .terminated]

variable {r r' : Room} {out : Room × List Effect} {states : List State} {log : List Notice}

namespace Stage

theorem created (h : Stage r states) (hsome : r.roster.active ≠ []) : r.state = .created := by
  cases h with
  | opened state _ => exact state
  | fresh _ _ nobody => exact absurd nobody hsome
  | closed _ _ nobody => exact absurd nobody hsome
  | failed _ _ nobody => exact absurd nobody hsome

theorem told_of_created (h : Stage r states) (hstate : r.state = .created) :
    states = [.creationPending, .created] := by
  cases h with
  | opened _ _ => rfl
  | fresh state _ _ => exact absurd (state.symm.trans hstate) (by simp)
  | closed state _ _ => exact absurd (state.symm.trans hstate) (by simp)
  | failed state _ _ => exact absurd (state.symm.trans hstate) (by simp)

theorem conference_isSome (h : Stage r states) (hstate : r.state = .created) :
    r.conference?.isSome := by
  obtain rfl := h.told_of_created hstate
  cases h with
  | opened _ conference => exact conference

theorem live (h : Stage r states) (hsome : r.roster.active ≠ []) :
    ∃ conference, r.conference? = some conference ∧ r.liveAddress? = some conference := by
  have hcreated := h.created hsome
  obtain ⟨conference, hconference⟩ := Option.isSome_iff_exists.mp (h.conference_isSome hcreated)
  refine ⟨conference, hconference, ?_⟩
  rw [liveAddress?, if_pos hcreated, hconference]

theorem told_of_instantiated (h : Stage r states) (hstate : r.state = .instantiated) :
    states = [] := by
  cases h with
  | fresh _ _ _ => rfl
  | opened state _ => exact absurd (state.symm.trans hstate) (by simp)
  | closed state _ _ => exact absurd (state.symm.trans hstate) (by simp)
  | failed state _ _ => exact absurd (state.symm.trans hstate) (by simp)

theorem conference_eq_none (h : Stage r states) (hstate : r.state = .instantiated) :
    r.conference? = none := by
  obtain rfl := h.told_of_instantiated hstate
  cases h with
  | fresh _ conference _ => exact conference

theorem nobody (h : Stage r states) (hstate : r.state ≠ .created) : r.roster.active = [] := by
  cases h with
  | opened state _ => exact absurd state hstate
  | fresh _ _ nobody => exact nobody
  | closed _ _ nobody => exact nobody
  | failed _ _ nobody => exact nobody

/-- The stage looks at the state, the address and whether anybody is there. -/
theorem congr (h : Stage r states) (hstate : r'.state = r.state)
    (hconference : r'.conference? = r.conference?)
    (hnobody : r.roster.active = [] → r'.roster.active = []) : Stage r' states := by
  cases h with
  | fresh state conference nobody =>
      exact .fresh (hstate.trans state) (hconference.trans conference) (hnobody nobody)
  | opened state conference => exact .opened (hstate.trans state) (hconference ▸ conference)
  | closed state conference nobody =>
      exact .closed (hstate.trans state) (hconference ▸ conference) (hnobody nobody)
  | failed state conference nobody =>
      exact .failed (hstate.trans state) (hconference.trans conference) (hnobody nobody)

end Stage

/-! ## What ticks and the search for an address do -/

theorem created_of_live (h : r.liveAddress?.isSome) : r.state = .created := by
  by_contra hne
  rw [liveAddress?, if_neg hne] at h
  exact Bool.noConfusion h

/-- Only an arrival fills the replica. -/
theorem nobody_of_apply {event : Event} (hreplica : r'.replica = r.replica.apply event)
    (h : ∀ a, event ≠ .participantAdded a) (hnobody : r.roster.active = []) :
    r'.roster.active = [] := by
  have hempty : r.replica.members = [] := by
    rw [replica, hnobody, List.map_nil]
  have hmembers : r'.replica.members = [] := by
    rw [hreplica]
    cases event with
    | participantAdded a => exact absurd rfl (h a)
    | participantRemoved a => simp [Replica.apply, hempty]
    | adminChanged a isAdmin => simp [Replica.apply, hempty]
    | subjectChanged subject => exact hempty
    | stateChanged state => exact hempty
    | messageDispatched a => exact hempty
    | deleted => exact hempty
  exact List.map_eq_nil_iff.mp hmembers

theorem nobody_of_replica_eq (hreplica : r'.replica = r.replica) (hnobody : r.roster.active = []) :
    r'.roster.active = [] := by
  have hmembers : r'.replica.members = r.replica.members := congrArg Replica.members hreplica
  rw [replica, replica, hnobody] at hmembers
  exact List.map_eq_nil_iff.mp hmembers

/-- Any event but an arrival and a new state leaves the stage alone. -/
theorem Stage.tell {event : Event} (h : Stage r states) (due : Due r event)
    (hreplica : r'.replica = r.replica.apply event) (hconference : r'.conference? = r.conference?) :
    Stage r' (states ++ event.state?.toList) := by
  have hstate : r'.state = (r.replica.apply event).state := congrArg Replica.state hreplica
  have hnobody := nobody_of_apply hreplica
  cases event with
  | participantAdded a =>
      -- whoever is added finds the room created, and an opened room may hold anybody
      have hcreated := created_of_live due
      obtain rfl := h.told_of_created hcreated
      exact .opened (hstate.trans hcreated) (hconference ▸ h.conference_isSome hcreated)
  | stateChanged state =>
      obtain ⟨rfl, hcreated, hempty⟩ := due
      obtain rfl := h.told_of_created hcreated
      exact .closed hstate (hconference ▸ h.conference_isSome hcreated) (hnobody (by simp) hempty)
  | _ =>
      have hsame : Stage r' states := h.congr hstate hconference (hnobody (by simp))
      simpa [Event.state?] using hsame

theorem Tick.stage (h : Tick r out) (hs : Stage r (toldStates log)) :
    Stage out.1 (toldStates (log ++ notices out.2)) := by
  rw [toldStates_append]
  cases h with
  | signal effect hsignal =>
      have hnone : notices (emit effect r).2 = [] := notices_of_signal hsignal
      rw [hnone, toldStates_nil, List.append_nil]
      exact hs
  | unseen hreplica _ hconference =>
      rw [notices_nil, toldStates_nil, List.append_nil]
      exact hs.congr (congrArg Replica.state hreplica) hconference (nobody_of_replica_eq hreplica)
  | @tell r' event due hreplica _ hconference =>
      have hs' := hs.tell due hreplica hconference
      have htold : toldStates (notices (notify event r').2) = event.state?.toList :=
        toldStates_singleton _
      rw [htold]
      exact hs'.congr rfl rfl fun hempty => hempty

/-- The search for an address tells two states, and gives the room an address
between them or none at all. -/
theorem establish_log (taken : Address → Bool) (tokens : Nat → String) (attempts : Nat)
    (h : r.state = .instantiated) :
    (∃ a, (r.establish taken tokens attempts).2.1 = r.established a ∧
      notices (r.establish taken tokens attempts).2.2 =
        [⟨r.conference?, r.sequence + 1, .stateChanged .creationPending⟩,
          ⟨some a, r.sequence + 2, .stateChanged .created⟩]) ∨
    ((r.establish taken tokens attempts).2.1 = r.abandoned ∧
      notices (r.establish taken tokens attempts).2.2 =
        [⟨r.conference?, r.sequence + 1, .stateChanged .creationPending⟩,
          ⟨r.conference?, r.sequence + 2, .stateChanged .terminated⟩]) := by
  cases hfree : r.freeCandidate? taken tokens attempts with
  | none =>
      rw [establish_of_taken h hfree]
      exact .inr ⟨rfl, rfl⟩
  | some i =>
      rw [establish_of_free h hfree]
      refine .inl ⟨candidate r.focus (tokens i), rfl, ?_⟩
      cases r.focus.session? <;> rfl

theorem establish_stage (taken : Address → Bool) (tokens : Nat → String) (attempts : Nat)
    (h : r.state = .instantiated) (hs : Stage r (toldStates log)) :
    Stage (r.establish taken tokens attempts).2.1
      (toldStates (log ++ notices (r.establish taken tokens attempts).2.2)) := by
  rw [toldStates_append, hs.told_of_instantiated h, List.nil_append]
  rcases establish_log taken tokens attempts h with ⟨a, hroom, hlog⟩ | ⟨hroom, hlog⟩
  · rw [hroom, hlog]
    exact .opened rfl rfl
  · rw [hroom, hlog]
    exact .failed rfl (hs.conference_eq_none h) (hs.nobody (by simp [h]))

/-! ## Along a history -/

/-- What holds of a room and its log, and goes on holding whatever happens. -/
structure Kept (I : Room → List Notice → Prop) : Prop where
  stage : ∀ {r log}, I r log → Stage r (toldStates log)
  tick : ∀ {r out log}, Tick r out → I r log → I out.1 (log ++ notices out.2)
  search : ∀ {r log} (taken : Address → Bool) (tokens : Nat → String) (attempts : Nat),
    r.state = .instantiated → I r log →
      I (r.establish taken tokens attempts).2.1
        (log ++ notices (r.establish taken tokens attempts).2.2)

namespace Kept

variable {I : Room → List Notice → Prop}

theorem ticks (hI : Kept I) (h : Chain Tick r out) (hr : I r log) :
    I out.1 (log ++ notices out.2) := by
  induction h generalizing log with
  | nil r =>
      rw [notices_nil, List.append_nil]
      exact hr
  | cons first rest ih =>
      rw [notices_append, ← List.append_assoc]
      exact ih (hI.tick first hr)

theorem move (hI : Kept I) (h : Move r out) (hdistinct : Roster.Distinct r.roster.active)
    (hr : I r log) : I out.1 (log ++ notices out.2) := by
  rcases h.ticks hdistinct (hI.stage hr).created with
    hticks | ⟨hstate, taken, tokens, attempts, rfl⟩
  · exact hI.ticks hticks hr
  · exact hI.search taken tokens attempts hstate hr

theorem moves (hI : Kept I) (h : Chain Move r out) (horderly : r.roster.Orderly)
    (hr : I r log) : I out.1 (log ++ notices out.2) := by
  induction h generalizing log with
  | nil r =>
      rw [notices_nil, List.append_nil]
      exact hr
  | cons first rest ih =>
      rw [notices_append, ← List.append_assoc]
      exact ih (first.orderly horderly) (hI.move first horderly.distinct hr)

/-- What is kept and holds of a new room holds after every history of it. -/
theorem run (hI : Kept I) {invite : Invite} (start : I (ofInvite invite) [])
    (ops : List Operation) :
    I ((ofInvite invite).run ops).1 (notices ((ofInvite invite).run ops).2) :=
  hI.moves (moves_run _ ops) Roster.orderly_empty start

end Kept

theorem kept_stage : Kept fun r log => Stage r (toldStates log) where
  stage := id
  tick := Tick.stage
  search := establish_stage

theorem run_stage (invite : Invite) (ops : List Operation) :
    Stage ((ofInvite invite).run ops).1 (toldStates (notices ((ofInvite invite).run ops).2)) :=
  kept_stage.run (.fresh rfl rfl rfl) ops

end Switchboard.Room
