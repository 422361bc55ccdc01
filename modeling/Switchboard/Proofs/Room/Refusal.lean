import Switchboard.Proofs.Room.Closing

/-!
# Refused requests

A room refuses a request before it changes anything. Whatever could fail
later has been settled by then: the first to join is found again right after
it has been added, and a room that can invite one party can invite the next.
-/

namespace Switchboard.Room

variable {r : Room} {a : Address} {request : Invite} {e : Error} {out : Room × List Effect}

/-! ## Rooms that can invite -/

/-- The room takes participants and has one already. -/
def CanInvite (r : Room) : Prop :=
  r.liveAddress?.isSome ∧ r.roster.active ≠ []

theorem Calm.live (h : Calm r out) : out.1.liveAddress? = r.liveAddress? := by
  unfold liveAddress?
  rw [h.state, h.conference]

theorem length_update (f : Participant → Participant) (a : Address) (l : List Participant) :
    (Roster.update f a l).length = l.length := by
  have hsame := Roster.map_update (g := fun _ => ()) (f := f) (a := a) (l := l) fun _ => rfl
  simpa using congrArg List.length hsame

/-- Nobody is lost in a visit. -/
theorem Visit.length_le (h : Visit r out) :
    r.roster.active.length ≤ out.1.roster.active.length := by
  have hadd : ∀ p, r.roster.active.length ≤ (r.roster.add p).active.length := by
    intro p
    unfold Roster.add
    split
    · exact Nat.le_refl _
    · rw [List.length_append]
      exact Nat.le_add_right _ _
  cases h with
  | emit effect _ => exact Nat.le_refl _
  | tell recipient => exact Nat.le_refl _
  | setSubject subject =>
      have hroster := setSubject_roster subject r
      exact Nat.le_of_eq (congrArg (·.active.length) hroster).symm
  | found a _ _ => exact hadd _
  | welcome a _ _ _ => exact hadd _
  | connect request _ _ =>
      rw [connect_roster]
      exact Nat.le_of_eq (length_update _ _ _).symm

theorem visits_length_le (h : Chain Visit r out) :
    r.roster.active.length ≤ out.1.roster.active.length :=
  h.lift (P := fun r out => r.roster.active.length ≤ out.1.roster.active.length)
    (fun _ => Nat.le_refl _) (fun _ _ _ => Nat.le_trans) fun _ _ => Visit.length_le

theorem visits_ne_nil (h : Chain Visit r out) (hsome : r.roster.active ≠ []) :
    out.1.roster.active ≠ [] := by
  have hlength := visits_length_le h
  have hpos := List.length_pos_iff.mpr hsome
  exact List.length_pos_iff.mp (Nat.lt_of_lt_of_le hpos hlength)

theorem CanInvite.visits (h : CanInvite r) (hvisits : Chain Visit r out) : CanInvite out.1 := by
  refine ⟨?_, visits_ne_nil hvisits h.2⟩
  rw [(calm_of_visits hvisits).live]
  exact h.1

/-! ## Inviting -/

theorem invite_of_canInvite (h : CanInvite r) : (r.invite a).1 = .ok () := by
  obtain ⟨conference, hlive⟩ := Option.isSome_iff_exists.mp h.1
  unfold invite
  rw [hlive]
  dsimp only
  rw [if_neg h.2]
  split <;> rfl

theorem invite_of_not_canInvite (h : ¬CanInvite r) :
    r.invite a = (.error (.invalidState r.state), r, []) := by
  unfold invite
  cases hlive : r.liveAddress? with
  | none => rfl
  | some conference =>
      have hempty : r.roster.active = [] := by
        by_contra hsome
        exact h ⟨by simp [hlive], hsome⟩
      dsimp only
      rw [if_pos hempty]

theorem inviteAll_of_canInvite (as : List Address) (h : CanInvite r) :
    (inviteAll as r).1 = .ok () := by
  induction as generalizing r with
  | nil => rfl
  | cons a rest ih =>
      have hok := invite_of_canInvite (a := a) h
      have hnext := h.visits (visits_invite a r)
      unfold inviteAll
      split
      · rename_i heq
        rw [heq] at hok
        exact absurd hok (by simp)
      · rename_i r₁ effects₁ heq
        rw [heq] at hnext
        exact ih hnext

/-- The first party decides, so a list is refused before anybody is added. -/
theorem inviteAll_of_not_canInvite (as : List Address) (h : ¬CanInvite r) :
    (inviteAll as r).2 = (r, []) := by
  cases as with
  | nil => rfl
  | cons a rest =>
      unfold inviteAll
      rw [invite_of_not_canInvite h]

theorem invite_of_error (h : (r.invite a).1 = .error e) : (r.invite a).2 = (r, []) := by
  have hcannot : ¬CanInvite r := by
    intro hcan
    rw [invite_of_canInvite hcan] at h
    exact absurd h (by simp)
  rw [invite_of_not_canInvite hcannot]

theorem inviteAll_of_error {as : List Address} (h : (inviteAll as r).1 = .error e) :
    (inviteAll as r).2 = (r, []) := by
  apply inviteAll_of_not_canInvite
  intro hcan
  rw [inviteAll_of_canInvite as hcan] at h
  exact absurd h (by simp)

/-! ## Joining, expelling, handing over -/

/-- Whoever asks to join an empty room is a participant then. -/
theorem find?_comeFirst (request : Invite) (hempty : r.roster.active = []) :
    ((comeFirst request.sender r).1.roster.find? request.sender).isSome := by
  unfold comeFirst
  rw [if_pos hempty, enter_roster]
  have hnew : r.roster.find? request.sender = none := by simp [Roster.find?, hempty]
  have hactive := Roster.add_active_of_none
    (p := { Participant.ofAddress request.sender with isAdmin := true }) hnew
  rw [Roster.find?_isSome_iff, hactive]
  refine ⟨_, List.mem_append_right _ (List.mem_singleton_self _), ?_⟩
  exact Address.sameParty_refl _

theorem comeFirst_of_ne_nil {sender : Address} (hsome : r.roster.active ≠ []) :
    comeFirst sender r = (r, []) := by
  unfold comeFirst
  rw [if_neg hsome]
  rfl

/-- What becomes of an invitation to the room. It is accepted if its sender is
a participant or the first to come. -/
inductive Joining (r : Room) (request : Invite) :
    Except Error Unit × Room × List Effect → Prop
  | notLive (live : r.liveAddress? = none) :
      Joining r request
        (.error (.invalidState r.state), r, [.decline request.session .notAcceptable])
  | stranger (live : r.liveAddress?.isSome) (somebody : r.roster.active ≠ [])
      (unknown : r.roster.find? request.sender = none) :
      Joining r request
        (.error (.unknownParticipant request.sender), r, [.decline request.session .declined])
  | accepted {conference : Address} {p : Participant} (live : r.liveAddress? = some conference)
      (known : (comeFirst request.sender r).1.roster.find? request.sender = some p) :
      Joining r request
        (.ok (), (comeFirst request.sender).andThen (receive request conference p.isAdmin) r)

theorem join_cases (r : Room) (request : Invite) : Joining r request (r.join request) := by
  cases hlive : r.liveAddress? with
  | none =>
      rw [join_of_none hlive]
      exact .notLive hlive
  | some conference =>
      cases hfind : (comeFirst request.sender r).1.roster.find? request.sender with
      | none =>
          have hsome : r.roster.active ≠ [] := by
            intro hempty
            have hfirst := find?_comeFirst request hempty
            rw [hfind] at hfirst
            exact Bool.noConfusion hfirst
          rw [join_of_stranger hlive hfind]
          rw [comeFirst_of_ne_nil hsome] at hfind ⊢
          exact .stranger (by simp [hlive]) hsome hfind
      | some p =>
          rw [join_of_participant hlive hfind]
          exact .accepted hlive hfind

theorem join_of_error (h : (r.join request).1 = .error e) :
    ∃ reason, (r.join request).2 = (r, [.decline request.session reason]) := by
  have hjoin := join_cases r request
  generalize r.join request = out at h hjoin
  cases hjoin with
  | notLive _ => exact ⟨.notAcceptable, rfl⟩
  | stranger _ _ _ => exact ⟨.declined, rfl⟩
  | accepted _ _ => exact absurd h (by simp)

/-- Once an invitation has been accepted somebody takes part. -/
theorem join_of_ok (h : (r.join request).1 = .ok ()) :
    r.liveAddress?.isSome ∧ (r.join request).2.1.roster.active ≠ [] := by
  have hjoin := join_cases r request
  generalize r.join request = out at h hjoin
  cases hjoin with
  | notLive _ => exact absurd h (by simp)
  | stranger _ _ _ => exact absurd h (by simp)
  | @accepted conference p hlive hfind =>
      refine ⟨by simp [hlive], ?_⟩
      have hlive' : (comeFirst request.sender r).1.liveAddress?.isSome := by simp [hlive]
      have hvisits := visits_receive request conference p.isAdmin _ hlive' (by simp [hfind])
      have hsome := visits_ne_nil hvisits (List.ne_nil_of_mem (Roster.mem_of_find? hfind))
      exact hsome

theorem expel_of_error (h : (r.expel a).1 = .error e) : (r.expel a).2 = (r, []) := by
  unfold expel at h ⊢
  cases hlive : r.liveAddress? with
  | none => rfl
  | some conference =>
      rw [hlive] at h
      cases hfind : r.roster.find? a with
      | none => rfl
      | some p =>
          rw [hfind] at h
          exact absurd h (by simp)

/-- A message from outside, or in another format, goes nowhere. -/
theorem relay_of_notAcceptable {message : IncomingMessage}
    (h : (r.relay message).1 = .notAcceptable) : (r.relay message).2 = (r, []) := by
  unfold relay at h ⊢
  by_cases hsender : (r.roster.find? message.sender).isNone = true
  · rw [if_pos hsender]
  · rw [if_neg hsender] at h ⊢
    by_cases hformat : (!message.content.mediaType.same .cpim) = true
    · rw [if_pos hformat]
    · rw [if_neg hformat] at h
      exact absurd h (by simp)

theorem transferAdmin_of_error (h : (r.transferAdmin a).1 = .error e) :
    (r.transferAdmin a).2 = (r, []) := by
  cases hfind : r.roster.find? a with
  | none =>
      unfold transferAdmin
      rw [hfind]
  | some p =>
      rw [transferAdmin_of_find? hfind] at h
      exact absurd h (by simp)

end Switchboard.Room
