import Switchboard.Proofs.Directory.History
import Switchboard.Proofs.Directory.Invitation
import Switchboard.Proofs.Room.Replica

/-!
# Refused requests to a directory

A directory that refuses a request is left as it was, with all its rooms. The
room concerned has changed nothing, so that it is put back in its place as it
was found, and a room that found no address never came in. Nobody hears of it
but the sender of an invitation, who is told once.
-/

namespace Switchboard.Directory

open Room (Effect notices)

variable {d : Directory} {room : Room} {a participant : Address} {p : Room → Bool}
  {turns : List Turn} {tokens : Nat → String} {request : Room.Invite}
  {message : Room.IncomingMessage} {e : Error}

/-- What goes out to peers, in order; notices stay with the listeners. -/
def signals (effects : List Effect) : List Effect :=
  effects.filter fun effect => effect.notice?.isNone

/-! ## Rooms put back -/

theorem replaceFirst_self {rooms : List Room} (h : rooms.find? p = some room) :
    replaceFirst p room rooms = rooms := by
  obtain ⟨front, back, hrooms, hreplace⟩ := replaceFirst_of_find? h
  rw [hreplace, hrooms]

theorem onFirst_of_unchanged {op : Room.Operation} {effects : List Effect}
    (hfind : d.rooms.find? p = some room) (h : (room.step op).2 = (room, effects)) :
    d.onFirst p op = some ((room.step op).1, d, effects) := by
  rw [onFirst_of_find? hfind, h, replaceFirst_self hfind]

theorem Sound.prune (h : Sound d) : d.prune = d := by
  unfold Directory.prune
  rw [filter_live fun room hroom => (h.live room hroom).1]

/-! ## Requests refused -/

theorem relay_of_notAcceptable (h : (d.relay message).1 = .notAcceptable) :
    (d.relay message).2 = (d, []) := by
  unfold relay at h ⊢
  cases hfind : d.find? message.target with
  | none => rw [onFirst_of_none hfind]
  | some room =>
      rw [onFirst_of_find? hfind] at h
      have hsame : (room.step (.relay message)).2 = (room, []) := Room.relay_of_notAcceptable h
      rw [onFirst_of_unchanged hfind hsame]
      rfl

/-- The directory reports a failure only when the room does. -/
theorem error_of_resultOf {result : Except Room.Error Unit}
    (h : resultOf (.ofResult result) = .error e) : ∃ cause, result = .error cause := by
  cases result with
  | ok => exact absurd h (by simp [Room.Answer.ofResult, resultOf])
  | error cause => exact ⟨cause, rfl⟩

theorem addParticipant_of_error (h : (d.addParticipant a participant).1 = .error e) :
    (d.addParticipant a participant).2 = (d, []) := by
  unfold addParticipant at h ⊢
  cases hfind : d.find? a with
  | none => rw [onFirst_of_none hfind]
  | some room =>
      rw [onFirst_of_find? hfind] at h
      obtain ⟨cause, hcause⟩ := error_of_resultOf h
      have hsame : (room.step (.invite participant)).2 = (room, []) :=
        Room.invite_of_error hcause
      rw [onFirst_of_unchanged hfind hsame]

/-- A sound directory has nothing to prune, before or after. -/
theorem Sound.removeParticipant_of_error (hd : Sound d)
    (h : (d.removeParticipant a participant).1 = .error e) :
    (d.removeParticipant a participant).2 = (d, []) := by
  unfold removeParticipant at h ⊢
  cases hfind : d.find? a with
  | none => rw [onFirst_of_none hfind]
  | some room =>
      rw [onFirst_of_find? hfind] at h
      obtain ⟨cause, hcause⟩ := error_of_resultOf h
      have hsame : (room.step (.expel participant)).2 = (room, []) := Room.expel_of_error hcause
      rw [onFirst_of_unchanged hfind hsame]
      dsimp only
      rw [hd.prune]

/-- What is made of an invitation that failed: one answer, and what a room that
was given up has told before it had an address. -/
theorem invite_of_error (h : (d.invite tokens request).1 = .error e) :
    (d.invite tokens request).2.1 = d ∧
      (∃ reason, signals (d.invite tokens request).2.2 = [.decline request.session reason]) ∧
      ∀ notice ∈ notices (d.invite tokens request).2.2, notice.room? = none := by
  by_cases hfactory : request.target.sameParty d.factory = true
  · rw [invite_of_factory hfactory] at h ⊢
    cases hfree : (Room.ofInvite request).freeCandidate? d.isTaken tokens d.maxAttempts with
    | some i =>
        rw [create_of_free hfree] at h
        exact absurd h (by simp)
    | none =>
        rw [create_of_taken hfree]
        refine ⟨rfl, ⟨.notAcceptable, rfl⟩, ?_⟩
        simp [notices, Effect.notice?]
  · rw [Bool.not_eq_true] at hfactory
    cases hfind : d.find? request.target with
    | none =>
        rw [invite_of_nowhere hfactory hfind]
        exact ⟨rfl, ⟨.notAcceptable, rfl⟩, by simp [notices, Effect.notice?]⟩
    | some room =>
        obtain ⟨conference, hconference, -⟩ := isAt_iff.mp (List.find?_some hfind)
        rw [invite_of_room hfactory hfind hconference] at h ⊢
        have hcause : ∃ cause, (room.join request).1 = .error cause := by
          cases hresult : (room.join request).1 with
          | error cause => exact ⟨cause, rfl⟩
          | ok =>
              rw [hresult] at h
              exact absurd h (by simp [Except.mapError, Except.map])
        obtain ⟨cause, hcause⟩ := hcause
        obtain ⟨reason, hjoin⟩ := Room.join_of_error hcause
        rw [hjoin]
        refine ⟨?_, ⟨reason, rfl⟩, by simp [notices, Effect.notice?]⟩
        dsimp only
        rw [replaceFirst_self hfind]

/-- **Failure changes nothing.** A directory that has come from any history
and fails a request is the same directory, with the same rooms. Only an
invitation that fails is heard of: by its sender, who is declined once, and by
nobody who listens to a room of the directory. A single room fails its
operations in the same way, whatever has become of it before. -/
theorem failure_changes_nothing (h : Served d turns) :
    (∀ tokens request e, (d.invite tokens request).1 = .error e →
      (d.invite tokens request).2.1 = d ∧
        (∃ reason,
          signals (d.invite tokens request).2.2 = [.decline request.session reason]) ∧
        ∀ notice ∈ notices (d.invite tokens request).2.2, ∀ room ∈ d.rooms,
          notice.room? ≠ room.conference?) ∧
      (∀ message, (d.relay message).1 = .notAcceptable → (d.relay message).2 = (d, [])) ∧
      (∀ a participant e, (d.addParticipant a participant).1 = .error e →
        (d.addParticipant a participant).2 = (d, [])) ∧
      (∀ a participant e, (d.removeParticipant a participant).1 = .error e →
        (d.removeParticipant a participant).2 = (d, [])) ∧
      ∀ (r : Room) (e : Room.Error),
        (∀ request, (r.join request).1 = .error e →
          ∃ reason, (r.join request).2 = (r, [.decline request.session reason])) ∧
        (∀ a, (r.invite a).1 = .error e → (r.invite a).2 = (r, [])) ∧
        (∀ as, (r.inviteAll as).1 = .error e → (r.inviteAll as).2 = (r, [])) ∧
        (∀ a, (r.expel a).1 = .error e → (r.expel a).2 = (r, [])) ∧
        (∀ a, (r.transferAdmin a).1 = .error e → (r.transferAdmin a).2 = (r, [])) := by
  have hsound := h.sound
  refine ⟨?_, ?_, ?_, ?_, ?_⟩
  · intro tokens request e he
    obtain ⟨hdirectory, hsignals, hnotices⟩ := invite_of_error he
    refine ⟨hdirectory, hsignals, ?_⟩
    intro notice hnotice room hroom heq
    -- every room held has an address, and such a notice has none
    have hsome := (hsound.live room hroom).2
    rw [← heq, hnotices notice hnotice] at hsome
    exact Bool.noConfusion hsome
  · intro message hrefused
    exact relay_of_notAcceptable hrefused
  · intro a participant e he
    exact addParticipant_of_error he
  · intro a participant e he
    exact hsound.removeParticipant_of_error he
  · intro r e
    refine ⟨?_, ?_, ?_, ?_, ?_⟩
    · intro request he
      exact Room.join_of_error he
    · intro a he
      exact Room.invite_of_error he
    · intro as he
      exact Room.inviteAll_of_error he
    · intro a he
      exact Room.expel_of_error he
    · intro a he
      exact Room.transferAdmin_of_error he

/-- Alice has a room made and joins it, and Bob asks to join it uninvited. -/
theorem failure_changes_nothing_for_stranger :
    let factory : Address := { user? := some "factory", host := "localhost" }
    let alice : Address := { user? := some "alice", host := "localhost" }
    let bob : Address := { user? := some "bob", host := "localhost" }
    let room : Address := { user? := some "chatroom-a", host := "localhost" }
    let call (sender target : Address) : Room.Invite :=
      { session := ⟨"1"⟩, sender, target, contact := sender }
    let requests : List Request :=
      [.invite (fun _ => "a") (call alice factory), .invite (fun _ => "b") (call alice room)]
    ∃ d turns, Served d turns ∧ turns.map Turn.request = requests ∧ d.rooms.length = 1 ∧
      (d.invite (fun _ => "c") (call bob room)).1 = .error (.room (.unknownParticipant bob)) ∧
      (d.invite (fun _ => "c") (call bob room)).2.1 = d ∧
      ∃ reason,
        signals (d.invite (fun _ => "c") (call bob room)).2.2 = [.decline ⟨"1"⟩ reason] := by
  intro factory alice bob room call requests
  let opened : Directory := { factory, maxAttempts := 2 }
  have hparse : Directory.parse "sip:factory@localhost" 2 = .ok opened := by decide +kernel
  have hrooms : (opened.serve requests).2.1.rooms.length = 1 := by decide +kernel
  have hrefused : ((opened.serve requests).2.1.invite (fun _ => "c") (call bob room)).1 =
      .error (.room (.unknownParticipant bob)) := by decide +kernel
  obtain ⟨turns, hserved, hrequests, -⟩ := (Served.opened hparse).serve requests
  rw [List.nil_append] at hserved
  obtain ⟨hinvite, -⟩ := failure_changes_nothing hserved
  obtain ⟨hdirectory, hsignals, -⟩ := hinvite _ _ _ hrefused
  exact ⟨_, turns, hserved, hrequests, hrooms, hrefused, hdirectory, hsignals⟩

end Switchboard.Directory
