import Switchboard.Proofs.Room.Refusal

/-!
# Answers

An invitation is answered when its session is accepted, declined or sent
elsewhere. Of all that a room does only joining answers anybody, and it
answers the one who asks: what the invitation sets off afterwards, a new
subject or more parties to invite, stays silent towards its session.
-/

namespace Switchboard.Room

variable {r : Room} {request : Invite}

def Effect.isAnswer : Effect → Bool
  | .accept _ _ | .decline _ _ | .redirect _ _ => true
  | .refer _ _ | .send _ | .notify _ => false

/-- The answers among some effects, in order. -/
def answers (effects : List Effect) : List Effect :=
  effects.filter Effect.isAnswer

@[simp] theorem answers_append (first last : List Effect) :
    answers (first ++ last) = answers first ++ answers last :=
  List.filter_append first last

/-! ## Changes that answer nobody -/

@[simp] theorem answers_setSubject (subject : String) (r : Room) :
    answers (setSubject subject r).2 = [] := by
  unfold setSubject
  split <;> rfl

@[simp] theorem answers_invite (a : Address) (r : Room) : answers (r.invite a).2.2 = [] := by
  unfold invite
  split
  · rfl
  · split
    · rfl
    · split <;> rfl

theorem answers_inviteAll (as : List Address) (r : Room) :
    answers (inviteAll as r).2.2 = [] := by
  induction as generalizing r with
  | nil => rfl
  | cons a rest ih =>
      have hfirst := answers_invite a r
      unfold inviteAll
      split
      · rename_i heq
        rw [heq] at hfirst
        exact hfirst
      · rename_i r₁ effects₁ heq
        rw [heq] at hfirst
        dsimp only at hfirst ⊢
        rw [answers_append, hfirst, ih r₁]
        rfl

theorem answers_comply (request : Invite) (r : Room) : answers (comply request r).2 = [] := by
  unfold comply
  rw [andThen_apply, answers_append, answers_inviteAll, List.append_nil]
  cases request.subject? with
  | none => rfl
  | some subject => exact answers_setSubject subject r

theorem answers_comeFirst (sender : Address) (r : Room) :
    answers (comeFirst sender r).2 = [] := by
  unfold comeFirst
  split <;> rfl

/-! ## Joining -/

/-- Whoever is received is told so before anything else is done. -/
theorem answers_receive (request : Invite) (conference : Address) (isAdmin : Bool) (r : Room) :
    answers (receive request conference isAdmin r).2 =
      [.accept request.session (focusContact conference)] := by
  unfold receive
  simp only [sequence_cons, sequence_nil, andThen_apply, answers_append]
  have hrest : ∀ r, answers ((if isAdmin then comply request else Change.none) r).2 = [] := by
    intro r
    split
    · exact answers_comply request r
    · rfl
  rw [hrest]
  rfl

theorem answers_accepted (request : Invite) (conference : Address) (isAdmin : Bool) (r : Room) :
    answers ((comeFirst request.sender).andThen (receive request conference isAdmin) r).2 =
      [.accept request.session (focusContact conference)] := by
  rw [andThen_apply, answers_append, answers_comeFirst, answers_receive]
  rfl

end Switchboard.Room
