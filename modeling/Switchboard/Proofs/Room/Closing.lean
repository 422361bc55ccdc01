import Switchboard.Proofs.Room.Creation
import Switchboard.Proofs.Room.Move

/-!
# When a room ends

A room that has been established keeps its address for good. Whatever is asked
of it either leaves its state alone and tells of no deletion, or terminates it
and tells once that the room at this address is deleted. A room that is
terminated does neither again.
-/

namespace Switchboard.Room

variable {r : Room} {out : Room × List Effect}

/-! ## Notices of deletion -/

/-- Address of the room that the effect tells to be deleted. -/
def Effect.closing? : Effect → Option (Option Address)
  | .notify notice => if notice.event = .deleted then some notice.room? else none
  | _ => none

/-- Addresses of the rooms that are told to be deleted, in order. -/
def closings (effects : List Effect) : List (Option Address) :=
  effects.filterMap Effect.closing?

@[simp] theorem closings_nil : closings [] = [] := rfl

@[simp] theorem closings_cons (effect : Effect) (rest : List Effect) :
    closings (effect :: rest) = effect.closing?.toList ++ closings rest := by
  unfold closings
  cases h : effect.closing? with
  | none => simp [h]
  | some a => simp [h]

@[simp] theorem closings_append (first last : List Effect) :
    closings (first ++ last) = closings first ++ closings last :=
  List.filterMap_append

/-! ## Calm changes -/

/-- The room keeps its state and its address, and no deletion is told. -/
structure Calm (r : Room) (out : Room × List Effect) : Prop where
  state : out.1.state = r.state
  conference : out.1.conference? = r.conference?
  silent : closings out.2 = []

namespace Calm

theorem refl (r : Room) : Calm r (r, []) where
  state := rfl
  conference := rfl
  silent := rfl

theorem trans {first last : Room × List Effect} (h : Calm r first) (hlast : Calm first.1 last) :
    Calm r (last.1, first.2 ++ last.2) where
  state := hlast.state.trans h.state
  conference := hlast.conference.trans h.conference
  silent := by rw [closings_append, h.silent, hlast.silent, List.append_nil]

theorem andThen {first second : Change} (h : Calm r (first r))
    (hsecond : Calm (first r).1 (second (first r).1)) : Calm r (first.andThen second r) :=
  h.trans hsecond

theorem emit {effect : Effect} (h : ∀ notice, effect ≠ .notify notice) :
    Calm r (Room.emit effect r) where
  state := rfl
  conference := rfl
  silent := by
    cases effect with
    | notify notice => exact absurd rfl (h notice)
    | _ => rfl

theorem setAdmin (a : Address) (isAdmin : Bool) : Calm r (Room.setAdmin a isAdmin r) := by
  unfold Room.setAdmin
  split
  · exact refl r
  · split
    · exact refl r
    · exact ⟨rfl, rfl, rfl⟩

theorem setAdmins (as : List Address) (isAdmin : Bool) (r : Room) :
    Calm r (Change.sequence (as.map fun a => Room.setAdmin a isAdmin) r) := by
  induction as generalizing r with
  | nil => exact refl r
  | cons a as ih =>
      rw [List.map_cons, sequence_cons]
      exact (setAdmin a isAdmin).andThen (ih _)

theorem transferAdmin (a : Address) (r : Room) : Calm r (r.transferAdmin a).2 := by
  cases hfind : r.roster.find? a with
  | none =>
      unfold Room.transferAdmin
      rw [hfind]
      exact refl r
  | some p =>
      rw [transferAdmin_of_find? hfind]
      exact (setAdmin a true).andThen (setAdmins _ false _)

end Calm

theorem Visit.calm (h : Visit r out) : Calm r out := by
  cases h with
  | emit effect h => exact .emit h
  | tell recipient => exact ⟨rfl, rfl, rfl⟩
  | setSubject subject =>
      unfold Room.setSubject
      split
      · exact .refl r
      · exact ⟨rfl, rfl, rfl⟩
  | found a _ _ => exact ⟨rfl, rfl, rfl⟩
  | welcome a _ _ _ => exact ⟨rfl, rfl, rfl⟩
  | connect request _ _ => exact ⟨rfl, rfl, rfl⟩

theorem calm_of_visits (h : Chain Visit r out) : Calm r out :=
  h.lift Calm.refl (fun _ _ _ => Calm.trans) fun _ _ => Visit.calm

/-- Looking for an address tells of no deletion, even when none is found. -/
theorem establish_closings (taken : Address → Bool) (tokens : Nat → String) (attempts : Nat)
    (r : Room) : closings (r.establish taken tokens attempts).2.2 = [] := by
  by_cases h : r.state = .instantiated
  · cases hfree : r.freeCandidate? taken tokens attempts with
    | none =>
        rw [establish_of_taken h hfree]
        rfl
    | some i =>
        rw [establish_of_free h hfree]
        cases r.focus.session? <;> rfl
  · rw [establish_of_ne h]
    rfl

/-! ## The end of a room -/

/-- A room that had not ended is terminated, and this is told once, under the
room's address. -/
structure Ends (r : Room) (out : Room × List Effect) : Prop where
  before : r.state ≠ .terminated
  state : out.1.state = .terminated
  conference : out.1.conference? = r.conference?
  once : closings out.2 = [r.conference?]

theorem Ends.of_calm {first last : Room × List Effect} (h : Calm r first)
    (hlast : Ends first.1 last) : Ends r (last.1, first.2 ++ last.2) where
  before := h.state ▸ hlast.before
  state := hlast.state
  conference := hlast.conference.trans h.conference
  once := by rw [closings_append, h.silent, hlast.once, h.conference, List.nil_append]

theorem Ends.then_calm {first last : Room × List Effect} (h : Ends r first)
    (hlast : Calm first.1 last) : Ends r (last.1, first.2 ++ last.2) where
  before := h.before
  state := hlast.state.trans h.state
  conference := hlast.conference.trans h.conference
  once := by rw [closings_append, h.once, hlast.silent, List.append_nil]

theorem delete_ends (h : r.state ≠ .terminated) : Ends r (delete r) := by
  unfold delete
  rw [if_neg h, andThen_apply]
  unfold setState
  rw [if_neg h]
  exact ⟨h, rfl, rfl, rfl⟩

/-! ## What becomes of a room with an address -/

/-- The room stays as it is, or ends. -/
def Settles (r : Room) (out : Room × List Effect) : Prop :=
  Calm r out ∨ Ends r out

/-- A room that has ended is calm ever after, so it ends once at most. -/
theorem Settles.trans {first last : Room × List Effect} (h : Settles r first)
    (hlast : Settles first.1 last) : Settles r (last.1, first.2 ++ last.2) := by
  rcases h with h | h
  · rcases hlast with hlast | hlast
    · exact .inl (h.trans hlast)
    · exact .inr (.of_calm h hlast)
  · rcases hlast with hlast | hlast
    · exact .inr (h.then_calm hlast)
    -- a second end would have to start from a room that has not ended
    · exact absurd h.state hlast.before

theorem Settles.state_ne (h : Settles r out) (hr : r.state ≠ .instantiated) :
    out.1.state ≠ .instantiated := by
  rcases h with h | h
  · rw [h.state]
    exact hr
  · rw [h.state]
    simp

theorem settle_settles (r : Room) : Settles r (settle r) := by
  unfold settle
  split
  · by_cases h : r.state = .terminated
    · unfold delete
      rw [if_pos h]
      exact .inl (.refl r)
    · exact .inr (delete_ends h)
  · split
    · exact .inl (.refl r)
    · exact .inl (.setAdmin _ true)

theorem depart_settles (a : Address) (r : Room) : Settles r (depart a r) := by
  unfold depart
  split
  · exact .inl (.refl r)
  · rename_i p _
    -- the departure itself is calm; only what it settles can end the room
    have hnotify : Calm r (notify (.participantRemoved p.address)
        { r with roster := r.roster.remove a }) := ⟨rfl, rfl, rfl⟩
    exact Settles.trans (.inl hnotify) (settle_settles _)

theorem Move.settles (h : Move r out) (hr : r.state ≠ .instantiated) : Settles r out := by
  cases h with
  | visit h => exact .inl h.calm
  | establish taken tokens attempts h => exact absurd h hr
  | depart a _ => exact depart_settles a r
  | transfer a _ => exact .inl (.transferAdmin a r)
  | forget session => exact .inl ⟨rfl, rfl, rfl⟩

theorem Chain.settles (h : Chain Move r out) (hr : r.state ≠ .instantiated) : Settles r out := by
  refine h.lift (P := fun r out => r.state ≠ .instantiated → Settles r out)
    (fun r _ => .inl (.refl r)) ?_ (fun _ _ => Move.settles) hr
  intro r first last hfirst hlast hr
  exact (hfirst hr).trans (hlast ((hfirst hr).state_ne hr))

theorem step_settles (op : Operation) (hr : r.state ≠ .instantiated) :
    Settles r (r.step op).2 :=
  (moves_step r op).settles hr

theorem step_conference (hr : r.state ≠ .instantiated) (op : Operation) :
    (r.step op).2.1.conference? = r.conference? := by
  rcases step_settles op hr with h | h
  · exact h.conference
  · exact h.conference

end Switchboard.Room
