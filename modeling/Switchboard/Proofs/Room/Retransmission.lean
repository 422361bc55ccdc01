import Switchboard.Proofs.Room.Answers
import Switchboard.Proofs.Room.Recipients

/-!
# Retransmitted invitations

A request that has been received leaves a room in which nothing is left of it
to do: its sender takes part in the session of the request, the subject is set,
and everybody whom it names has been invited. Such a room only answers when the
same request comes again.
-/

namespace Switchboard.Room

variable {r : Room} {request : Invite} {conference a : Address} {p : Participant}

/-! ## The sender connected -/

/-- Session and contact of a participant are those of its request. -/
def Participant.Connected (p : Participant) (request : Invite) : Prop :=
  p.session? = some request.session ∧ p.contact = request.contact

theorem find?_connect (request : Invite) (r : Room) :
    (connect request r).1.roster.find? request.sender =
      (r.roster.find? request.sender).map fun p =>
        { p with session? := some request.session, contact := request.contact } := by
  rw [connect_roster]
  exact Roster.find?_modify fun _ => rfl

theorem connect_of_connected (hfind : r.roster.find? request.sender = some p)
    (h : p.Connected request) : connect request r = (r, []) := by
  have hsame : r.roster.modify request.sender (fun p =>
      { p with session? := some request.session, contact := request.contact }) = r.roster := by
    apply Roster.modify_eq_self
    intro q hq
    obtain rfl : p = q := by
      rw [hfind] at hq
      exact Option.some.inj hq
    rw [← h.1, ← h.2]
  rw [connect, hsame]

/-! ## What the request asks for -/

/-- Nothing is left to do of what the request asks for. -/
structure Fulfilled (request : Invite) (r : Room) : Prop where
  subject : ∀ subject, request.subject? = some subject → r.subject = subject
  recipients : ∀ a ∈ request.recipients, (r.roster.find? a).isSome

theorem setRequested_live (request : Invite) (r : Room) :
    (setRequested request r).1.liveAddress? = r.liveAddress? := by
  unfold setRequested
  cases request.subject? with
  | none => rfl
  | some subject =>
      show (setSubject subject r).1.liveAddress? = _
      unfold setSubject
      split <;> rfl

theorem setRequested_subject (request : Invite) (r : Room) :
    ∀ subject, request.subject? = some subject →
      (setRequested request r).1.subject = subject := by
  intro subject hsubject
  unfold setRequested
  rw [hsubject]
  show (setSubject subject r).1.subject = subject
  unfold setSubject
  split
  · assumption
  · rfl

theorem setRequested_of_subject (h : ∀ subject, request.subject? = some subject →
    r.subject = subject) : setRequested request r = (r, []) := by
  unfold setRequested
  cases hsubject : request.subject? with
  | none => rfl
  | some subject =>
      show setSubject subject r = _
      rw [setSubject, if_pos (h subject hsubject)]

theorem covers_setRequested (request : Invite) (r : Room) :
    Covers (r.roster.active.map (·.address)) (setRequested request r).1.roster := by
  rw [setRequested_roster]
  exact covers_addresses r.roster

/-- Complying changes the subject and welcomes whoever of the list is new. -/
theorem comply_room (request : Invite) (h : CanInvite r) :
    (comply request r).1 = (setRequested request r).1.welcomed
      (newcomers (r.roster.active.map (·.address)) request.recipients) := by
  obtain ⟨conference, hlive⟩ := Option.isSome_iff_exists.mp h.1
  have hlive' := (setRequested_live request r).trans hlive
  have hsome : (setRequested request r).1.roster.active ≠ [] := by
    rw [setRequested_roster]
    exact h.2
  rw [comply_apply, inviteAll_apply hlive' hsome (covers_setRequested request r)]

theorem fulfilled_comply (request : Invite) (h : CanInvite r) :
    Fulfilled request (comply request r).1 := by
  rw [comply_room request h]
  constructor
  · exact setRequested_subject request r
  · intro a ha
    rw [← (covers_setRequested request r).welcomed request.recipients a, List.any_eq_true]
    exact ⟨a, List.mem_append_right _ ha, Address.sameParty_refl a⟩

theorem comply_of_fulfilled (hcan : CanInvite r) (h : Fulfilled request r) :
    comply request r = (r, []) := by
  obtain ⟨conference, hlive⟩ := Option.isSome_iff_exists.mp hcan.1
  have hcovers := covers_addresses r.roster
  have hnobody : newcomers (r.roster.active.map (·.address)) request.recipients = [] := by
    apply newcomers_eq_nil
    intro a ha
    rw [hcovers a]
    exact h.recipients a ha
  rw [comply_apply, setRequested_of_subject h.subject, inviteAll_apply hlive hcan.2 hcovers,
    hnobody, welcomed_nil]
  rfl

/-- Whoever takes part goes on doing so, unchanged. -/
theorem find?_comply (hcan : CanInvite r) (hfind : r.roster.find? a = some p) :
    (comply request r).1.roster.find? a = some p := by
  rw [comply_room request hcan, find?_welcomed, setRequested_roster, hfind]
  rfl

/-! ## Receiving again -/

/-- Nothing is left to do in the room for the request but to answer it. -/
structure Received (request : Invite) (conference : Address) (r : Room) : Prop where
  live : r.liveAddress? = some conference
  sender : ∃ p, r.roster.find? request.sender = some p ∧ p.Connected request ∧
    (p.isAdmin = true → Fulfilled request r)

theorem receive_room (request : Invite) (conference : Address) (isAdmin : Bool) (r : Room) :
    (receive request conference isAdmin r).1 =
      ((if isAdmin then comply request else Change.none) (connect request r).1).1 := rfl

theorem received_receive (hlive : r.liveAddress? = some conference)
    (hfind : r.roster.find? request.sender = some p) :
    Received request conference (receive request conference p.isAdmin r).1 := by
  have hvisits := visits_receive request conference p.isAdmin r (by simp [hlive]) (by simp [hfind])
  refine ⟨(calm_of_visits hvisits).live.trans hlive, ?_⟩
  rw [receive_room]
  have hconnected := find?_connect request r
  rw [hfind, Option.map_some] at hconnected
  -- a guest's request is fulfilled or not, as nobody acts on it
  by_cases hadmin : p.isAdmin = true
  · have hlive' : (connect request r).1.liveAddress? = some conference := hlive
    have hcan : CanInvite (connect request r).1 :=
      ⟨by simp [hlive'], List.ne_nil_of_mem (Roster.mem_of_find? hconnected)⟩
    rw [if_pos hadmin]
    exact ⟨_, find?_comply hcan hconnected, ⟨rfl, rfl⟩, fun _ => fulfilled_comply request hcan⟩
  · rw [if_neg hadmin]
    exact ⟨_, hconnected, ⟨rfl, rfl⟩, fun hadmin' => absurd hadmin' hadmin⟩

theorem join_of_received (h : Received request conference r) :
    r.join request = (.ok (), r, [.accept request.session (focusContact conference)]) := by
  obtain ⟨p, hfind, hconnected, hfulfilled⟩ := h.sender
  have hsome : r.roster.active ≠ [] := List.ne_nil_of_mem (Roster.mem_of_find? hfind)
  have hfirst : comeFirst request.sender r = (r, []) := comeFirst_of_ne_nil hsome
  have hcan : CanInvite r := ⟨by simp [h.live], hsome⟩
  have hrest : (if p.isAdmin then comply request else Change.none) r = (r, []) := by
    split
    · rename_i hadmin
      exact comply_of_fulfilled hcan (hfulfilled hadmin)
    · rfl
  rw [join_of_participant (p := p) h.live (by rw [hfirst]; exact hfind), andThen_apply, hfirst]
  unfold receive
  simp only [sequence_cons, sequence_nil, andThen_apply, connect_of_connected hfind hconnected,
    emit_fst, hrest]
  rfl

/-- Once a request has been accepted, nothing but the answer is left to do. -/
theorem received_of_ok (h : (r.join request).1 = .ok ()) :
    ∃ conference, Received request conference (r.join request).2.1 ∧
      answers (r.join request).2.2 = [.accept request.session (focusContact conference)] := by
  have hjoin := join_cases r request
  generalize r.join request = out at h hjoin ⊢
  cases hjoin with
  | notLive _ => exact absurd h (by simp)
  | stranger _ _ _ => exact absurd h (by simp)
  | @accepted conference p hlive hfind =>
      have hlive' := (comeFirst_live request.sender r).trans hlive
      exact ⟨conference, received_receive hlive' hfind, answers_accepted request conference _ r⟩

/-- **A retransmission changes nothing.** A request to join gets one answer,
and when it comes again right afterwards the same answer is all that happens:
the result is the same, and the room stays as the first request has left it,
with nobody told or invited. -/
theorem retransmission_changes_nothing (r : Room) (request : Invite) :
    let first := r.join request
    ∃ answer,
      ((∃ contact, answer = .accept request.session contact) ∨
        ∃ reason, answer = .decline request.session reason) ∧
      answers first.2.2 = [answer] ∧
      first.2.1.join request = (first.1, first.2.1, [answer]) := by
  intro first
  cases hresult : first.1 with
  | error e =>
      -- a refusal leaves the room as it was, which refuses the request again
      obtain ⟨reason, hout⟩ := join_of_error hresult
      have hfirst : first = (.error e, r, [.decline request.session reason]) :=
        Prod.ext hresult hout
      refine ⟨_, .inr ⟨reason, rfl⟩, ?_, ?_⟩
      · rw [hfirst]
        rfl
      · have hroom : first.2.1 = r := congrArg Prod.fst hout
        rw [hroom]
        exact hfirst
  | ok =>
      obtain ⟨conference, hreceived, hanswers⟩ := received_of_ok hresult
      exact ⟨_, .inl ⟨_, rfl⟩, hanswers, join_of_received hreceived⟩

end Switchboard.Room
