import Switchboard.Proofs.Room.Change
import Switchboard.Room.Creation

/-!
# What becomes of a new room

A room that is instantiated either gets the first candidate address that is
free, and is created, or finds all of them taken and is terminated. In any
other state looking for an address does nothing.
-/

namespace Switchboard.Room

variable {r : Room} {taken : Address → Bool} {tokens : Nat → String} {attempts : Nat}

/-! ## The first free candidate -/

theorem firstFree_eq_none_iff {free : Nat → Bool} {start : Nat} :
    firstFree free attempts start = none ↔
      ∀ i, start ≤ i → i < start + attempts → free i = false := by
  induction attempts generalizing start with
  | zero =>
      constructor
      · intro _ i hle hlt
        omega
      · intro _
        rfl
  | succ attempts ih =>
      rw [firstFree]
      by_cases hfree : free start = true
      -- a free start refutes both sides at once
      · rw [if_pos hfree]
        constructor
        · intro h
          exact absurd h (by simp)
        · intro h
          rw [h start (Nat.le_refl start) (by omega)] at hfree
          exact Bool.noConfusion hfree
      · rw [if_neg hfree, ih]
        constructor
        · intro h i hle hlt
          rcases Nat.eq_or_lt_of_le hle with heq | hlt'
          · rw [← heq]
            simpa using hfree
          · exact h i hlt' (by omega)
        · intro h i hle hlt
          exact h i (by omega) (by omega)

/-- The number found satisfies `free`, lies in range, and is the first. -/
theorem firstFree_eq_some {free : Nat → Bool} {start i : Nat}
    (h : firstFree free attempts start = some i) :
    free i = true ∧ start ≤ i ∧ i < start + attempts ∧
      ∀ j, start ≤ j → j < i → free j = false := by
  induction attempts generalizing start with
  | zero => exact absurd h (by simp [firstFree])
  | succ attempts ih =>
      rw [firstFree] at h
      by_cases hfree : free start = true
      · rw [if_pos hfree, Option.some.injEq] at h
        subst h
        refine ⟨hfree, Nat.le_refl start, by omega, ?_⟩
        intro j hle hlt
        omega
      · rw [if_neg hfree] at h
        obtain ⟨hi, hle, hlt, hfirst⟩ := ih h
        refine ⟨hi, by omega, by omega, ?_⟩
        intro j hj hji
        rcases Nat.eq_or_lt_of_le hj with heq | hlt'
        · rw [← heq]
          simpa using hfree
        · exact hfirst j hlt' hji

/-! ## The outcome -/

/-- The room once it is reached at this address. -/
def established (r : Room) (a : Address) : Room :=
  { r with
    state := .created
    focus := { r.focus with address := a, contact := a }
    conference? := some a
    sequence := r.sequence + 2 }

/-- The room without an address, and with no more hope of one. -/
def abandoned (r : Room) : Room :=
  { r with state := .terminated, sequence := r.sequence + 2 }

/-- First number of a free candidate, if one of those tried is free. -/
def freeCandidate? (r : Room) (taken : Address → Bool) (tokens : Nat → String)
    (attempts : Nat) : Option Nat :=
  firstFree (fun i => !taken (candidate r.focus (tokens i))) attempts 0

theorem establish_of_ne (h : r.state ≠ .instantiated) :
    r.establish taken tokens attempts = (.error (.invalidState r.state), r, []) := by
  unfold establish
  rw [if_pos h]

theorem establish_of_free {i : Nat} (h : r.state = .instantiated)
    (hfree : r.freeCandidate? taken tokens attempts = some i) :
    r.establish taken tokens attempts =
      (.ok (candidate r.focus (tokens i), i + 1),
        r.established (candidate r.focus (tokens i)),
        .notify ⟨r.conference?, r.sequence + 1, .stateChanged .creationPending⟩ ::
          (r.focus.session?.map fun s =>
            Effect.redirect s (focusContact (candidate r.focus (tokens i)))).toList ++
          [.notify ⟨some (candidate r.focus (tokens i)), r.sequence + 2,
            .stateChanged .created⟩]) := by
  unfold freeCandidate? at hfree
  unfold establish
  rw [if_neg (by simp [h])]
  dsimp only
  rw [hfree]
  cases hsession : r.focus.session? <;>
    simp [andThen_apply, setState, h, notify, emit, hsession, established]

theorem establish_of_taken (h : r.state = .instantiated)
    (htaken : r.freeCandidate? taken tokens attempts = none) :
    r.establish taken tokens attempts =
      (.error (.noFreeAddress attempts), r.abandoned,
        [.notify ⟨r.conference?, r.sequence + 1, .stateChanged .creationPending⟩,
          .notify ⟨r.conference?, r.sequence + 2, .stateChanged .terminated⟩]) := by
  unfold freeCandidate? at htaken
  unfold establish
  rw [if_neg (by simp [h])]
  dsimp only
  rw [htaken]
  simp [andThen_apply, setState, h, notify, abandoned]

/-- A room that finds an address finds a free one. -/
theorem establish_ok {a : Address} {tries : Nat} {out : Room × List Effect}
    (h : r.establish taken tokens attempts = (.ok (a, tries), out)) :
    taken a = false ∧ out.1 = r.established a := by
  by_cases hstate : r.state = .instantiated
  · cases hfree : r.freeCandidate? taken tokens attempts with
    | none =>
        rw [establish_of_taken hstate hfree, Prod.mk.injEq] at h
        exact absurd h.1 (by simp)
    | some i =>
        rw [establish_of_free hstate hfree, Prod.mk.injEq] at h
        obtain ⟨hok, rfl⟩ := h
        rw [Except.ok.injEq, Prod.mk.injEq] at hok
        obtain ⟨rfl, -⟩ := hok
        have hi := (firstFree_eq_some hfree).1
        rw [Bool.not_eq_true'] at hi
        exact ⟨hi, rfl⟩
  · rw [establish_of_ne hstate, Prod.mk.injEq] at h
    exact absurd h.1 (by simp)

theorem establish_roster (taken : Address → Bool) (tokens : Nat → String) (attempts : Nat)
    (r : Room) : (r.establish taken tokens attempts).2.1.roster = r.roster := by
  by_cases h : r.state = .instantiated
  · cases hfree : r.freeCandidate? taken tokens attempts with
    | none =>
        rw [establish_of_taken h hfree]
        rfl
    | some i =>
        rw [establish_of_free h hfree]
        rfl
  · rw [establish_of_ne h]

end Switchboard.Room
