import Switchboard.Proofs.Directory.Rooms
import Switchboard.Proofs.Room.Answers

/-!
# Answers to an invitation

An invitation passes through up to three hands: the factory makes a room that
redirects it, a room accepts or declines it, and the directory declines what
no room takes. Whichever way it goes, it is answered once, and the answer says
what its result says.
-/

namespace Switchboard.Directory

open Room (answers focusContact)

variable {d : Directory} {room : Room} {a : Address} {tokens : Nat → String}
  {request : Room.Invite}

/-! ## The ways of an invitation -/

theorem create_of_free {i : Nat}
    (h : (Room.ofInvite request).freeCandidate? d.isTaken tokens d.maxAttempts = some i) :
    d.create tokens request =
      (.ok (Room.candidate (Room.ofInvite request).focus (tokens i)),
        { d with rooms := d.rooms ++ [(Room.ofInvite request).established
            (Room.candidate (Room.ofInvite request).focus (tokens i))] },
        [.notify ⟨none, 1, .stateChanged .creationPending⟩,
          .redirect request.session
            (focusContact (Room.candidate (Room.ofInvite request).focus (tokens i))),
          .notify ⟨some (Room.candidate (Room.ofInvite request).focus (tokens i)), 2,
            .stateChanged .created⟩]) := by
  unfold create
  rw [Room.establish_of_free rfl h]
  rfl

theorem create_of_taken
    (h : (Room.ofInvite request).freeCandidate? d.isTaken tokens d.maxAttempts = none) :
    d.create tokens request =
      (.error (.room (.noFreeAddress d.maxAttempts)), d,
        [.notify ⟨none, 1, .stateChanged .creationPending⟩,
          .notify ⟨none, 2, .stateChanged .terminated⟩,
          .decline request.session .notAcceptable]) := by
  unfold create
  rw [Room.establish_of_taken rfl h]
  rfl

theorem invite_of_factory (h : request.target.sameParty d.factory = true) :
    d.invite tokens request = d.create tokens request := by
  unfold invite
  rw [if_pos h]

theorem invite_of_nowhere (h : request.target.sameParty d.factory = false)
    (hfind : d.find? request.target = none) :
    d.invite tokens request =
      (.error (.roomNotFound request.target), d, [.decline request.session .notAcceptable]) := by
  unfold invite
  rw [if_neg (by simp [h]), hfind]
  rfl

/-- What a room makes of an invitation is what the directory makes of it. -/
theorem invite_of_room (h : request.target.sameParty d.factory = false)
    (hfind : d.find? request.target = some room) (hconference : room.conference? = some a) :
    d.invite tokens request =
      (((room.join request).1.mapError Error.room).map fun _ => a,
        { d with rooms :=
            replaceFirst (isAt request.target) (room.join request).2.1 d.rooms },
        (room.join request).2.2) := by
  unfold invite
  rw [if_neg (by simp [h])]
  dsimp only
  rw [onFirst_of_find? hfind, hfind, Option.bind_some, hconference]
  have hstep : room.step (.join request) =
      (Room.Answer.ofResult (room.join request).1, (room.join request).2) := rfl
  rw [hstep]
  cases (room.join request).1 <;> rfl

/-! ## What is replied -/

/-- The sender asks for a room where others take part already, and is none of
them. -/
def Stranger (d : Directory) (request : Room.Invite) : Prop :=
  request.target.sameParty d.factory = false ∧
    ∃ room, d.find? request.target = some room ∧ room.liveAddress?.isSome ∧
      room.roster.active ≠ [] ∧ room.roster.find? request.sender = none

/-- The result of an invitation, with the one answer that fits it. -/
inductive Reply (d : Directory) (request : Room.Invite) :
    Except Error Address → Room.Effect → Prop
  | redirected (a : Address) (factory : request.target.sameParty d.factory = true) :
      Reply d request (.ok a) (.redirect request.session (focusContact a))
  | accepted (a : Address) (elsewhere : request.target.sameParty d.factory = false)
      (known : ¬Stranger d request) :
      Reply d request (.ok a) (.accept request.session (focusContact a))
  | stranger (unknown : Stranger d request) :
      Reply d request (.error (.room (.unknownParticipant request.sender)))
        (.decline request.session .declined)
  | refused (e : Error) (known : ¬Stranger d request)
      (cause : ∀ a, e ≠ .room (.unknownParticipant a)) :
      Reply d request (.error e) (.decline request.session .notAcceptable)

/-- No sender is a stranger to the factory. -/
theorem not_stranger_of_factory (h : request.target.sameParty d.factory = true) :
    ¬Stranger d request := by
  rintro ⟨hfactory, -⟩
  rw [h] at hfactory
  exact Bool.noConfusion hfactory

theorem stranger_iff (h : request.target.sameParty d.factory = false)
    (hfind : d.find? request.target = some room) :
    Stranger d request ↔ room.liveAddress?.isSome ∧ room.roster.active ≠ [] ∧
      room.roster.find? request.sender = none := by
  unfold Stranger
  rw [hfind]
  simp [h]

/-- The invitation is answered once, in the way that its result calls for. -/
def AnsweredBy (d : Directory) (request : Room.Invite)
    (out : Except Error Address × Directory × List Room.Effect) : Prop :=
  ∃ answer, answers out.2.2 = [answer] ∧ Reply d request out.1 answer

theorem create_answered (h : request.target.sameParty d.factory = true) :
    AnsweredBy d request (d.create tokens request) := by
  cases hfree : (Room.ofInvite request).freeCandidate? d.isTaken tokens d.maxAttempts with
  | some i =>
      rw [create_of_free hfree]
      exact ⟨_, rfl, .redirected _ h⟩
  | none =>
      rw [create_of_taken hfree]
      exact ⟨_, rfl, .refused _ (not_stranger_of_factory h) (by simp)⟩

theorem join_answered (h : request.target.sameParty d.factory = false)
    (hfind : d.find? request.target = some room) :
    AnsweredBy d request (d.invite tokens request) := by
  obtain ⟨a, hconference, -⟩ := isAt_iff.mp (List.find?_some hfind)
  have hstranger := stranger_iff h hfind
  rw [invite_of_room h hfind hconference]
  have hjoin := room.join_cases request
  generalize room.join request = out at hjoin
  cases hjoin with
  | notLive live =>
      refine ⟨_, rfl, .refused _ ?_ (by simp)⟩
      rw [hstranger, live]
      simp
  | stranger live somebody unknown =>
      exact ⟨_, rfl, .stranger (hstranger.mpr ⟨live, somebody, unknown⟩)⟩
  | @accepted conference p live known =>
      -- a room that takes participants is reached at the address it was found under
      have hsame : conference = a := by
        unfold Room.liveAddress? at live
        split at live
        · rw [hconference, Option.some.injEq] at live
          exact live.symm
        · exact absurd live (by simp)
      refine ⟨_, Room.answers_accepted request conference p.isAdmin room, ?_⟩
      rw [hsame]
      refine .accepted a h ?_
      rw [hstranger]
      rintro ⟨-, hsome, hnone⟩
      rw [Room.comeFirst_of_ne_nil hsome, hnone] at known
      exact absurd known (by simp)

theorem invite_answered (d : Directory) (tokens : Nat → String) (request : Room.Invite) :
    AnsweredBy d request (d.invite tokens request) := by
  by_cases hfactory : request.target.sameParty d.factory = true
  · rw [invite_of_factory hfactory]
    exact create_answered hfactory
  · rw [Bool.not_eq_true] at hfactory
    cases hfind : d.find? request.target with
    | some room => exact join_answered hfactory hfind
    | none =>
        rw [invite_of_nowhere hfactory hfind]
        refine ⟨_, rfl, .refused _ ?_ (by simp)⟩
        rintro ⟨-, room, hroom, -⟩
        rw [hfind] at hroom
        exact absurd hroom (by simp)

namespace Reply

variable {result : Except Error Address} {answer : Room.Effect}

theorem redirect_iff (h : Reply d request result answer) (session : Room.Session)
    (target : Address) :
    answer = .redirect session target ↔ session = request.session ∧
      ∃ a, result = .ok a ∧ request.target.sameParty d.factory = true ∧
        target = focusContact a := by
  cases h with
  | redirected a factory => simp [factory, eq_comm]
  | accepted a elsewhere known => simp [elsewhere]
  | stranger unknown => simp
  | refused e known cause => simp

theorem accept_iff (h : Reply d request result answer) (session : Room.Session)
    (contact : Address) :
    answer = .accept session contact ↔ session = request.session ∧
      ∃ a, result = .ok a ∧ request.target.sameParty d.factory = false ∧
        contact = focusContact a := by
  cases h with
  | redirected a factory => simp [factory]
  | accepted a elsewhere known => simp [elsewhere, eq_comm]
  | stranger unknown => simp
  | refused e known cause => simp

theorem decline_iff (h : Reply d request result answer) (session : Room.Session)
    (reason : Reason) :
    answer = .decline session reason ↔ session = request.session ∧ (∃ e, result = .error e) ∧
      (reason = .declined ∧ Stranger d request ∨
        reason = .notAcceptable ∧ ¬Stranger d request) := by
  cases h with
  | redirected a factory => simp
  | accepted a elsewhere known => simp
  | stranger unknown => simp [unknown, eq_comm]
  | refused e known cause => simp [known, eq_comm]

theorem stranger_iff (h : Reply d request result answer) :
    Stranger d request ↔ result = .error (.room (.unknownParticipant request.sender)) := by
  cases h with
  | redirected a factory => simp [not_stranger_of_factory factory]
  | accepted a elsewhere known => simp [known]
  | stranger unknown => simp [unknown]
  | refused e known cause => simp [known, cause request.sender]

end Reply

/-- **One answer to an invitation.** Whatever rooms there are, an invitation
is answered once, for its own session. It is redirected to the address of its
result if that came of the factory, and accepted there if it came of a room;
without such a result it is declined, as unwanted if its sender is a stranger
to the room and as not acceptable for any other reason. -/
theorem one_answer (d : Directory) (tokens : Nat → String) (request : Room.Invite) :
    let out := d.invite tokens request
    let toFactory := request.target.sameParty d.factory
    ∃ answer, answers out.2.2 = [answer] ∧
      (∀ session target, answer = .redirect session target ↔ session = request.session ∧
        ∃ a, out.1 = .ok a ∧ toFactory = true ∧ target = a.setParam "isfocus") ∧
      (∀ session contact, answer = .accept session contact ↔ session = request.session ∧
        ∃ a, out.1 = .ok a ∧ toFactory = false ∧ contact = a.setParam "isfocus") ∧
      (∀ session reason, answer = .decline session reason ↔ session = request.session ∧
        (∃ e, out.1 = .error e) ∧ (reason = .declined ∧ Stranger d request ∨
          reason = .notAcceptable ∧ ¬Stranger d request)) ∧
      (Stranger d request ↔
        out.1 = .error (.room (.unknownParticipant request.sender))) := by
  intro out toFactory
  obtain ⟨answer, hanswers, hreply⟩ := invite_answered d tokens request
  exact ⟨answer, hanswers, hreply.redirect_iff, hreply.accept_iff, hreply.decline_iff,
    hreply.stranger_iff⟩

end Switchboard.Directory
