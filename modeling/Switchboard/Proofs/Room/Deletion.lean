import Switchboard.Proofs.Room.Life

/-!
# The deletion of a room

A room tells of its deletion once, in the operation that takes out its last
participant, and nothing else in that operation comes after it. From then on
the room sends nothing and declines whoever calls. But whoever asks the room
for another subject is still heard, and the new subject is told as before.
-/

namespace Switchboard.Room

variable {r : Room} {a : Address} {op : Operation} {effects : List Effect}
  {out : Room × List Effect}

/-! ## The last that is told -/

/-- The last effect, and no other, tells that the room is deleted. -/
def DeletesLast (effects : List Effect) : Prop :=
  ∃ before notice, effects = before ++ [.notify notice] ∧ notice.event = .deleted ∧
    closings before = []

theorem DeletesLast.after {first : List Effect} (h : DeletesLast effects)
    (hfirst : closings first = []) : DeletesLast (first ++ effects) := by
  obtain ⟨before, notice, rfl, hevent, hbefore⟩ := h
  refine ⟨first ++ before, notice, by rw [List.append_assoc], hevent, ?_⟩
  rw [closings_append, hfirst, hbefore, List.append_nil]

theorem delete_last (h : r.state ≠ .terminated) : DeletesLast (delete r).2 := by
  unfold delete
  rw [if_neg h, andThen_apply]
  unfold setState
  rw [if_neg h]
  exact ⟨_, _, rfl, rfl, rfl⟩

theorem settle_last (r : Room) : closings (settle r).2 = [] ∨ DeletesLast (settle r).2 := by
  unfold settle
  split
  · by_cases h : r.state = .terminated
    · left
      unfold delete
      rw [if_pos h]
      rfl
    · exact .inr (delete_last h)
  · left
    split
    · rfl
    · exact (Calm.setAdmin _ true).silent

theorem depart_last (a : Address) (r : Room) :
    closings (depart a r).2 = [] ∨ DeletesLast (depart a r).2 := by
  cases hfind : r.roster.find? a with
  | none =>
      left
      unfold depart
      rw [hfind]
      rfl
  | some p =>
      rw [depart_of_find? hfind, andThen_apply]
      have htold : closings (notify (.participantRemoved p.address)
          { r with roster := r.roster.remove a }).2 = [] := rfl
      rcases settle_last (notify (.participantRemoved p.address)
          { r with roster := r.roster.remove a }).1 with hsilent | hlast
      · left
        rw [closings_append, htold, hsilent, List.append_nil]
      · exact .inr (hlast.after htold)

theorem expel_last (a : Address) (r : Room) :
    closings (r.expel a).2.2 = [] ∨ DeletesLast (r.expel a).2.2 := by
  unfold expel
  split
  · exact .inl rfl
  · rename_i conference _
    split
    · exact .inl rfl
    · rename_i p _
      have hrefer : closings (emit (.refer p.contact (referTo conference true)) r).2 = [] := rfl
      dsimp only
      rw [andThen_apply]
      rcases depart_last a r with hsilent | hlast
      · left
        rw [closings_append, hrefer, emit_fst, hsilent, List.append_nil]
      · exact .inr (hlast.after hrefer)

theorem ended_last (session : Session) (r : Room) :
    closings (sessionChanged session .ended r).2 = [] ∨
      DeletesLast (sessionChanged session .ended r).2 := by
  unfold sessionChanged
  dsimp only
  rw [andThen_apply, List.append_nil]
  cases r.roster.bySession? session with
  | none => exact .inl rfl
  | some p => exact depart_last p.address r

/-- No deletion is told unless somebody may be taken out. -/
theorem step_silent (r : Room) (op : Operation) :
    closings (r.step op).2.2 = [] ∨ (∃ a, op = .expel a) ∨
      ∃ session, op = .sessionChanged session .ended := by
  have hvisits : ∀ {out : Room × List Effect}, Chain Visit r out → closings out.2 = [] :=
    fun h => (calm_of_visits h).silent
  cases op with
  | establish taken tokens attempts =>
      left
      rw [step_establish]
      exact establish_closings taken tokens attempts r
  | join request => exact .inl (hvisits (visits_join request r))
  | comply request => exact .inl (hvisits (visits_comply request r))
  | invite a => exact .inl (hvisits (visits_invite a r))
  | inviteAll as => exact .inl (hvisits (visits_inviteAll as r))
  | expel a => exact .inr (.inl ⟨a, rfl⟩)
  | transferAdmin a => exact .inl (Calm.transferAdmin a r).silent
  | setSubject subject => exact .inl (Visit.setSubject r subject).calm.silent
  | dispatch sender content => exact .inl (hvisits (visits_dispatch sender content r))
  | relay message => exact .inl (hvisits (visits_relay message r))
  | sessionChanged session change =>
      cases change with
      | connected => exact .inl rfl
      | updated request =>
          left
          show closings (sessionChanged session (.updated request) r).2 = []
          unfold sessionChanged
          dsimp only
          split
          · split
            · exact hvisits (visits_comply request r)
            · rfl
          · rfl
      | ended => exact .inr (.inr ⟨session, rfl⟩)

/-- An operation tells of the deletion last or not at all. -/
theorem step_last (r : Room) (op : Operation) :
    closings (r.step op).2.2 = [] ∨ DeletesLast (r.step op).2.2 := by
  rcases step_silent r op with hsilent | ⟨a, rfl⟩ | ⟨session, rfl⟩
  · exact .inl hsilent
  · exact expel_last a r
  · exact ended_last session r

/-! ## When it is told -/

theorem closings_step_of_nobody (h : r.roster.active = []) (op : Operation) :
    closings (r.step op).2.2 = [] := by
  rcases step_silent r op with hsilent | ⟨a, rfl⟩ | ⟨session, rfl⟩
  · exact hsilent
  · show closings (r.expel a).2.2 = []
    rw [expel_of_nobody h]
    rfl
  · show closings (sessionChanged session .ended r).2 = []
    unfold sessionChanged
    rw [bySession?_of_nobody h]
    rfl

/-- The deletion is told when the last participant goes. -/
theorem closings_step {states states' : List State} (hs : Stage r states)
    (hs' : Stage (r.step op).2.1 states') :
    closings (r.step op).2.2 =
      if r.roster.active ≠ [] ∧ (r.step op).2.1.roster.active = [] then [r.conference?]
      else [] := by
  by_cases hempty : r.roster.active = []
  · rw [if_neg fun h => h.1 hempty, closings_step_of_nobody hempty]
  · have hcreated := hs.created hempty
    rcases step_settles op (r := r) (by simp [hcreated]) with hcalm | hends
    · have hstays : (r.step op).2.1.roster.active ≠ [] := by
        rcases (step_deserts r op).left hempty with hsome | hended
        · exact hsome
        · rw [hcalm.state, hcreated] at hended
          exact absurd hended (by simp)
      rw [if_neg fun h => hstays h.2, hcalm.silent]
    · have hnobody := hs'.nobody (by simp [hends.state])
      rw [if_pos ⟨hempty, hnobody⟩, hends.once]

/-- A room is closed once it has ended and has had an address. It comes to be
closed when its last participant goes, and in no other way. -/
theorem closed_step_iff {states states' : List State} (hs : Stage r states)
    (hs' : Stage (r.step op).2.1 states') :
    ((r.step op).2.1.state = .terminated ∧ (r.step op).2.1.conference?.isSome) ↔
      (r.state = .terminated ∧ r.conference?.isSome) ∨
        (r.roster.active ≠ [] ∧ (r.step op).2.1.roster.active = []) := by
  constructor
  · rintro ⟨hend, hconference⟩
    by_cases hstate : r.state = .terminated
    · rw [step_conference (by simp [hstate])] at hconference
      exact .inl ⟨hstate, hconference⟩
    · right
      rcases step_ends hs hs' hstate hend with ⟨_, _, _, _, _, _, hnone⟩ | ⟨p, hp, hnobody⟩
      · rw [hnone] at hconference
        exact Bool.noConfusion hconference
      · exact ⟨by simp [hp], hnobody⟩
  · rintro (⟨hstate, hconference⟩ | ⟨hsome, hnobody⟩)
    · rw [step_conference (by simp [hstate])]
      exact ⟨(step_deserts r op).ended hstate, hconference⟩
    · have hcreated := hs.created hsome
      rw [step_conference (by simp [hcreated])]
      refine ⟨?_, hs.conference_isSome hcreated⟩
      rcases (step_deserts r op).left hsome with hstays | hended
      · exact absurd hnobody hstays
      · exact hended

/-- A room that is closed has told its deletion once, any other never. -/
theorem closings_run (invite : Invite) (ops : List Operation) :
    closings ((ofInvite invite).run ops).2 =
      if ((ofInvite invite).run ops).1.state = .terminated ∧
          ((ofInvite invite).run ops).1.conference?.isSome then
        [((ofInvite invite).run ops).1.conference?]
      else [] := by
  induction ops using List.reverseRecOn with
  | nil => rfl
  | append_singleton ops op ih =>
      have hs := run_stage invite ops
      have hs' := run_stage invite (ops ++ [op])
      have heffects : ((ofInvite invite).run (ops ++ [op])).2 =
          ((ofInvite invite).run ops).2 ++ (((ofInvite invite).run ops).1.step op).2.2 := by
        rw [run_append, run_cons, run_nil, List.append_nil]
      rw [run_snoc] at hs' ⊢
      rw [heffects, closings_append, ih, closings_step hs hs']
      generalize ((ofInvite invite).run ops).1 = r at hs hs'
      have hiff := closed_step_iff hs hs'
      by_cases hclosed : r.state = .terminated ∧ r.conference?.isSome
      -- what has been told before is not told again, as nobody is left to go
      · have hnobody := hs.nobody (by simp [hclosed.1])
        rw [if_pos hclosed, if_neg fun h => h.1 hnobody, if_pos (hiff.mpr (.inl hclosed)),
          step_conference (by simp [hclosed.1]), List.append_nil]
      · rw [if_neg hclosed, List.nil_append]
        by_cases hlast : r.roster.active ≠ [] ∧ (r.step op).2.1.roster.active = []
        · have hcreated := hs.created hlast.1
          rw [if_pos hlast, if_pos (hiff.mpr (.inr hlast)), step_conference (by simp [hcreated])]
        · rw [if_neg hlast, if_neg fun h => (hiff.mp h).elim hclosed hlast]

/-! ## Rooms that have ended -/

/-- Subject that an operation asks the room for, whoever asks. -/
def Operation.subject? : Operation → Option String
  | .setSubject subject => some subject
  | .comply request => request.subject?
  | _ => none

/-- Subjects that are asked for, in order. -/
def askedSubjects (ops : List Operation) : List String :=
  ops.filterMap Operation.subject?

theorem askedSubjects_cons (op : Operation) (rest : List Operation) :
    askedSubjects (op :: rest) = op.subject?.toList ++ askedSubjects rest := by
  unfold askedSubjects
  cases h : op.subject? <;> simp [h]

/-- What an operation still does to a room where nobody is left: it sets the
subject that it asks for and tells so if it is new, and it may decline a
caller. -/
structure Echoes (r : Room) (op : Operation) (out : Room × List Effect) : Prop where
  subject : out.1.subject = op.subject?.getD r.subject
  told : (notices out.2).map (·.event) =
    (op.subject?.filter (· ≠ r.subject)).toList.map Event.subjectChanged
  signals : ∀ effect ∈ out.2, effect.notice? = none →
    ∃ session, effect = .decline session .notAcceptable

/-- Nothing is asked for and nothing happens that anybody hears. -/
theorem Echoes.silent (hop : op.subject? = none) {r' : Room} (hsubject : r'.subject = r.subject) :
    Echoes r op (r', []) where
  subject := by rw [hop, hsubject]; rfl
  told := by rw [hop]; rfl
  signals := by simp

theorem echoes_setSubject {subject : String} (hop : op.subject? = some subject) :
    Echoes r op (setSubject subject r) := by
  unfold setSubject
  by_cases h : r.subject = subject
  · rw [if_pos h]
    exact ⟨by rw [hop, h]; rfl, by simp [hop, h], by simp⟩
  · rw [if_neg h]
    refine ⟨by rw [hop]; rfl, ?_, ?_⟩
    · have hnew : subject ≠ r.subject := fun heq => h heq.symm
      simp [hop, hnew, notices, Effect.notice?, notify, Option.filter]
    · simp [notify, Effect.notice?]

theorem echoes_comply {request : Invite} (hnobody : r.roster.active = []) :
    Echoes r (.comply request) (comply request r) := by
  have hinvite : ∀ r₁ : Room, r₁.roster.active = [] →
      (inviteAll request.recipients r₁).2 = (r₁, []) :=
    fun r₁ h => inviteAll_of_nobody _ h
  unfold comply
  rw [andThen_apply]
  cases hsubject : request.subject? with
  | none =>
      dsimp only
      rw [hinvite (Change.none r).1 hnobody]
      have hop : (Operation.comply request).subject? = none := hsubject
      exact .silent hop rfl
  | some subject =>
      dsimp only
      rw [hinvite (setSubject subject r).1 (by rw [setSubject_roster, hnobody]), List.append_nil]
      exact echoes_setSubject hsubject

theorem liveAddress?_of_terminated (h : r.state = .terminated) : r.liveAddress? = none := by
  unfold liveAddress?
  rw [if_neg (by simp [h])]

theorem step_echoes (h : r.state = .terminated) (hnobody : r.roster.active = [])
    (op : Operation) : Echoes r op (r.step op).2 := by
  have hlive := liveAddress?_of_terminated h
  cases op with
  | establish taken tokens attempts =>
      rw [step_establish, establish_of_ne (by simp [h])]
      exact .silent rfl rfl
  | join request =>
      show Echoes r _ (r.join request).2
      rw [join_of_none hlive]
      refine ⟨rfl, rfl, ?_⟩
      intro effect heffect _
      exact ⟨request.session, List.mem_singleton.mp heffect⟩
  | comply request => exact echoes_comply hnobody
  | invite a =>
      show Echoes r _ (r.invite a).2
      rw [invite_of_not_canInvite fun hcan => hcan.2 hnobody]
      exact .silent rfl rfl
  | inviteAll as =>
      show Echoes r _ (inviteAll as r).2
      rw [inviteAll_of_nobody as hnobody]
      exact .silent rfl rfl
  | expel a =>
      show Echoes r _ (r.expel a).2
      rw [expel_of_nobody hnobody]
      exact .silent rfl rfl
  | transferAdmin a =>
      show Echoes r _ (r.transferAdmin a).2
      rw [transferAdmin_of_nobody hnobody]
      exact .silent rfl rfl
  | setSubject subject => exact echoes_setSubject rfl
  | dispatch sender content =>
      show Echoes r _ (r.dispatch sender content).2
      unfold dispatch
      rw [hnobody]
      split <;> exact .silent rfl rfl
  | relay message =>
      show Echoes r _ (r.relay message).2
      unfold relay
      rw [find?_of_nobody hnobody]
      exact .silent rfl rfl
  | sessionChanged session change =>
      show Echoes r _ (sessionChanged session change r)
      unfold sessionChanged
      rw [bySession?_of_nobody hnobody]
      cases change <;> exact .silent rfl rfl

/-- Who is asked to join a room that has ended is not let in. -/
theorem nobody_of_terminated (h : r.state = .terminated) (hnobody : r.roster.active = [])
    (op : Operation) : (r.step op).2.1.roster.active = [] := by
  apply step_active_of_nobody hnobody
  intro request _ hok
  rw [join_of_none (liveAddress?_of_terminated h)] at hok
  exact absurd hok (by simp)

/-- What a room that has ended still does, whatever is asked of it. -/
structure Lingers (r : Room) (ops : List Operation) (out : Room × List Effect) : Prop where
  heard : ∀ effect ∈ out.2, (∃ session, effect = .decline session .notAcceptable) ∨
    ∃ notice subject, effect = .notify notice ∧ notice.event = .subjectChanged subject ∧
      subject ∈ askedSubjects ops
  quiet : notices out.2 = [] ↔ ∀ subject ∈ askedSubjects ops, subject = r.subject
  subject : out.1.subject = (askedSubjects ops).getLast?.getD r.subject

theorem Echoes.heard (h : Echoes r op out) : ∀ effect ∈ out.2,
    (∃ session, effect = .decline session .notAcceptable) ∨
      ∃ notice subject, effect = .notify notice ∧ notice.event = .subjectChanged subject ∧
        subject ∈ op.subject?.toList := by
  intro effect heffect
  cases hnotice : effect.notice? with
  | none => exact .inl (h.signals effect heffect hnotice)
  | some notice =>
      right
      have hevent : notice.event ∈ (notices out.2).map (·.event) :=
        List.mem_map_of_mem (List.mem_filterMap.mpr ⟨effect, heffect, hnotice⟩)
      rw [h.told] at hevent
      obtain ⟨subject, hsubject, heq⟩ := List.mem_map.mp hevent
      refine ⟨notice, subject, ?_, heq.symm, ?_⟩
      · cases effect with
        | notify n =>
            rw [Effect.notice?, Option.some.injEq] at hnotice
            rw [hnotice]
        | _ => exact absurd hnotice (by simp [Effect.notice?])
      · rw [Option.mem_toList] at hsubject ⊢
        exact (Option.filter_eq_some_iff.mp hsubject).1

theorem Echoes.quiet (h : Echoes r op out) :
    notices out.2 = [] ↔ ∀ subject ∈ op.subject?.toList, subject = r.subject := by
  rw [← List.map_eq_nil_iff (f := (·.event)), h.told]
  cases op.subject? with
  | none => simp
  | some subject => by_cases hs : subject = r.subject <;> simp [hs]

theorem run_lingers (h : r.state = .terminated) (hnobody : r.roster.active = [])
    (ops : List Operation) : Lingers r ops (r.run ops) := by
  induction ops generalizing r with
  | nil => exact ⟨by simp, by simp [askedSubjects], rfl⟩
  | cons op rest ih =>
      have hstep := step_echoes h hnobody op
      have hrest := ih ((step_deserts r op).ended h) (nobody_of_terminated h hnobody op)
      rw [run_cons]
      refine ⟨?_, ?_, ?_⟩
      · intro effect heffect
        rw [askedSubjects_cons]
        rcases List.mem_append.mp heffect with hfirst | hlater
        · rcases hstep.heard effect hfirst with hdecline | ⟨n, s, hn, hs, hasked⟩
          · exact .inl hdecline
          · exact .inr ⟨n, s, hn, hs, List.mem_append_left _ hasked⟩
        · rcases hrest.heard effect hlater with hdecline | ⟨n, s, hn, hs, hasked⟩
          · exact .inl hdecline
          · exact .inr ⟨n, s, hn, hs, List.mem_append_right _ hasked⟩
      · rw [notices_append, List.append_eq_nil_iff, hstep.quiet, hrest.quiet, askedSubjects_cons,
          List.forall_mem_append]
        -- as long as nothing new is asked for, the subject to compare with is the same
        refine and_congr_right fun hfirst => ?_
        have hsame : (r.step op).2.1.subject = r.subject := by
          rw [hstep.subject]
          cases hop : op.subject? with
          | none => rfl
          | some subject => exact hfirst subject (by simp [hop])
        rw [hsame]
      · rw [hrest.subject, hstep.subject, askedSubjects_cons, List.getLast?_append,
          Option.getD_or]
        cases op.subject? <;> rfl

/-- **A deletion is told once, and last.** After any history the deletion of
the room has been told once if the room has ended and had an address, and never
otherwise. The operation that tells it is the one that takes out the last
participant, and tells it last. A room that has ended sends nothing but
refusals to those who call; it tells nothing, and keeps its subject, exactly as
long as nobody asks it for another one. -/
theorem deletion_told_last (invite : Invite) (ops : List Operation) :
    let start := ofInvite invite
    let room := (start.run ops).1
    closings (start.run ops).2 =
        (if room.state = .terminated ∧ room.conference?.isSome then [room.conference?] else []) ∧
      (∀ op, closings (room.step op).2.2 ≠ [] ↔
        room.roster.active ≠ [] ∧ (room.step op).2.1.roster.active = []) ∧
      (∀ op, closings (room.step op).2.2 ≠ [] →
        ∃ before notice, (room.step op).2.2 = before ++ [.notify notice] ∧
          notice.event = .deleted ∧ closings before = []) ∧
      (room.state = .terminated → ∀ more,
        (∀ effect ∈ (room.run more).2, (∃ session, effect = .decline session .notAcceptable) ∨
          ∃ notice subject, effect = .notify notice ∧ notice.event = .subjectChanged subject ∧
            subject ∈ askedSubjects more) ∧
        (notices (room.run more).2 = [] ↔
          ∀ subject ∈ askedSubjects more, subject = room.subject) ∧
        (room.run more).1.subject = (askedSubjects more).getLast?.getD room.subject) := by
  intro start room
  have hstage := run_stage invite ops
  refine ⟨closings_run invite ops, ?_, ?_, ?_⟩
  · intro op
    have hnext := run_stage invite (ops ++ [op])
    rw [run_snoc] at hnext
    rw [closings_step hstage hnext]
    split
    · rename_i hlast
      exact ⟨fun _ => hlast, fun _ => List.cons_ne_nil _ _⟩
    · rename_i hnot
      exact ⟨fun htold => absurd rfl htold, fun hlast => absurd hlast hnot⟩
  · intro op htold
    exact (step_last room op).resolve_left htold
  · intro hended more
    have hnobody : room.roster.active = [] := by
      apply hstage.nobody
      show room.state ≠ .created
      simp [hended]
    have hlingers := run_lingers hended hnobody more
    exact ⟨hlingers.heard, hlingers.quiet, hlingers.subject⟩

/-- Alice leaves a room of her own, which is deleted, and then asks it for a
subject. -/
theorem subject_told_after_deletion :
    let party (name : String) : Address := { user? := some name, host := "localhost" }
    let call : Invite :=
      { session := ⟨"1"⟩, sender := party "alice", target := party "room"
        contact := party "alice" }
    let ops : List Operation := [.establish (fun _ => false) (fun _ => "a") 1, .join call,
      .expel (party "alice"), .setSubject "Lunch"]
    let out := (ofInvite call).run ops
    (notices out.2).map (·.event) =
        [.stateChanged .creationPending, .stateChanged .created,
          .participantAdded (party "alice"), .participantRemoved (party "alice"),
          .stateChanged .terminated, .deleted, .subjectChanged "Lunch"] ∧
      out.1.subject = "Lunch" := by
  decide +kernel

end Switchboard.Room
