import Mathlib.Data.List.Pairwise
import Switchboard.Directory.Basic

/-!
# The rooms of a directory

A directory is sound when all its rooms are created with an address and no
two addresses name the same party. Then an address leads to one room at most,
and the first room found is the only one there is to find.
-/

namespace Switchboard.Directory

variable {d : Directory} {room other : Room} {a : Address} {p : Room → Bool}

/-- The rooms are not reached at addresses of the same party. -/
def Apart (room other : Room) : Prop :=
  ∀ a b, room.conference? = some a → other.conference? = some b → a.sameParty b = false

structure Sound (d : Directory) : Prop where
  live : ∀ room ∈ d.rooms, room.state = .created ∧ room.conference?.isSome
  apart : d.rooms.Pairwise Apart

instance : Std.Symm Apart where
  symm room other h a b ha hb := by
    rw [Address.sameParty_comm]
    exact h b a hb ha

theorem isAt_iff : isAt a room = true ↔ ∃ b, room.conference? = some b ∧ b.sameParty a := by
  unfold isAt
  cases room.conference? with
  | none => simp
  | some b => simp

theorem Apart.not_isAt (h : Apart room other) (ha : isAt a room = true) : isAt a other = false := by
  rw [← Bool.not_eq_true]
  intro hb
  obtain ⟨b, hconference, hb⟩ := isAt_iff.mp hb
  obtain ⟨c, hconference', hc⟩ := isAt_iff.mp ha
  rw [Address.sameParty_comm] at hb
  have hsame := Address.sameParty_trans hc hb
  rw [h c b hconference' hconference] at hsame
  exact Bool.noConfusion hsame

/-! ## One room at an address -/

namespace Sound

theorem eq_of_isAt (h : Sound d) (hroom : room ∈ d.rooms) (hother : other ∈ d.rooms)
    (ha : isAt a room = true) (hb : isAt a other = true) : room = other := by
  by_contra hne
  rw [(h.apart.forall hroom hother hne).not_isAt ha] at hb
  exact Bool.noConfusion hb

theorem find?_eq_some_iff (h : Sound d) :
    d.find? a = some room ↔ room ∈ d.rooms ∧ isAt a room = true := by
  constructor
  · intro hfind
    exact ⟨List.mem_of_find?_eq_some hfind, List.find?_some hfind⟩
  · rintro ⟨hroom, ha⟩
    cases hfind : d.find? a with
    | none => exact absurd ha (List.find?_eq_none.mp hfind room hroom)
    | some first =>
        rw [h.eq_of_isAt (List.mem_of_find?_eq_some hfind) hroom (List.find?_some hfind) ha]

theorem length_filter_isAt_le (h : Sound d) (a : Address) :
    (d.rooms.filter (isAt a)).length ≤ 1 := by
  have hsub : (d.rooms.filter (isAt a)).Sublist d.rooms := List.filter_sublist
  have hapart := h.apart.sublist hsub
  have hat : ∀ room ∈ d.rooms.filter (isAt a), isAt a room = true :=
    fun _ hroom => (List.mem_filter.mp hroom).2
  revert hapart hat
  cases d.rooms.filter (isAt a) with
  | nil => intros; simp
  | cons room rest =>
      intro hapart hat
      cases rest with
      | nil => simp
      | cons other rest =>
          have hother := (List.rel_of_pairwise_cons hapart List.mem_cons_self).not_isAt
            (hat room List.mem_cons_self)
          rw [hat other (by simp)] at hother
          exact Bool.noConfusion hother

end Sound

/-! ## An operation on one room -/

/-- The room found stands somewhere in the list, and its replacement in the
same place. -/
theorem replaceFirst_of_find? {rooms : List Room} (h : rooms.find? p = some room) :
    ∃ front back, rooms = front ++ room :: back ∧
      ∀ new, replaceFirst p new rooms = front ++ new :: back := by
  induction rooms with
  | nil => exact absurd h (by simp)
  | cons r rest ih =>
      by_cases hp : p r = true
      · rw [List.find?_cons_of_pos hp, Option.some.injEq] at h
        subst h
        refine ⟨[], rest, rfl, ?_⟩
        intro new
        rw [replaceFirst, if_pos hp]
        rfl
      · rw [List.find?_cons_of_neg hp] at h
        obtain ⟨front, back, hrooms, hreplace⟩ := ih h
        refine ⟨r :: front, back, by rw [hrooms]; rfl, ?_⟩
        intro new
        rw [replaceFirst, if_neg hp, hreplace]
        rfl

theorem onFirst_of_none (h : d.rooms.find? p = none) (op : Room.Operation) :
    d.onFirst p op = none := by
  unfold onFirst
  rw [h]
  rfl

theorem onFirst_of_find? (h : d.rooms.find? p = some room) (op : Room.Operation) :
    d.onFirst p op = some ((room.step op).1,
      { d with rooms := replaceFirst p (room.step op).2.1 d.rooms }, (room.step op).2.2) := by
  unfold onFirst
  rw [h]
  rfl

theorem find?_of_onFirst {op : Room.Operation} {answer : Room.Answer}
    {out : Directory × List Room.Effect} (h : d.onFirst p op = some (answer, out)) :
    ∃ room, d.rooms.find? p = some room ∧ answer = (room.step op).1 ∧
      out = ({ d with rooms := replaceFirst p (room.step op).2.1 d.rooms },
        (room.step op).2.2) := by
  cases hfind : d.rooms.find? p with
  | none =>
      rw [onFirst_of_none hfind] at h
      exact absurd h (by simp)
  | some room =>
      rw [onFirst_of_find? hfind, Option.some.injEq, Prod.mk.injEq] at h
      exact ⟨room, rfl, h.1.symm, h.2.symm⟩

end Switchboard.Directory
