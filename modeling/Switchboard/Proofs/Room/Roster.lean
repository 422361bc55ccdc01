import Mathlib.Data.List.Basic
import Switchboard.Room.Roster

/-!
# Looking participants up

Participants are found, changed and taken out by the party that their address
names, and each time the first match counts. While no party is listed twice
the first match is the only one: a change then maps over the list, and a
removal filters it.
-/

namespace Switchboard.Room.Roster

variable {r : Roster} {a : Address} {p : Participant} {l : List Participant}

/-! ## The participant of a party -/

theorem mem_of_find? (h : r.find? a = some p) : p ∈ r.active :=
  List.mem_of_find?_eq_some h

theorem find?_isSome_iff :
    (r.find? a).isSome ↔ ∃ p ∈ r.active, p.address.sameParty a = true := by
  simp [find?]

theorem find?_eq_none_iff :
    r.find? a = none ↔ ∀ p ∈ r.active, p.address.sameParty a = false := by
  simp [find?]

theorem find?_isSome_of_mem (h : p ∈ r.active) : (r.find? p.address).isSome :=
  find?_isSome_iff.mpr ⟨p, h, Address.sameParty_refl p.address⟩

theorem bySession?_mem {s : Session} (h : r.bySession? s = some p) : p ∈ r.active :=
  List.mem_of_find?_eq_some h

/-! ## Changing the participant of a party -/

/-- What a change of one participant leaves alone it leaves alone in the
whole list. -/
theorem map_update {β : Type} {g : Participant → β} {f : Participant → Participant}
    (h : ∀ p, g (f p) = g p) : (update f a l).map g = l.map g := by
  induction l with
  | nil => rfl
  | cons p rest ih =>
      rw [update]
      split
      · rw [List.map_cons, List.map_cons, h]
      · rw [List.map_cons, List.map_cons, ih]

theorem update_eq_self {f : Participant → Participant}
    (h : ∀ p, l.find? (fun p => p.address.sameParty a) = some p → f p = p) :
    update f a l = l := by
  induction l with
  | nil => rfl
  | cons p rest ih =>
      rw [update]
      by_cases hp : p.address.sameParty a = true
      · rw [if_pos hp, h p (by rw [List.find?_cons_of_pos (by simpa using hp)])]
      · rw [if_neg hp, ih]
        intro q hq
        exact h q (by rw [List.find?_cons_of_neg (by simpa using hp)]; exact hq)

theorem modify_eq_self {f : Participant → Participant}
    (h : ∀ p, r.find? a = some p → f p = p) : r.modify a f = r := by
  rw [modify, update_eq_self h]

/-- A change of the participant of a party that leaves its address alone is
seen when the party is looked up again. -/
theorem find?_modify {f : Participant → Participant} (h : ∀ p, (f p).address = p.address) :
    (r.modify a f).find? a = (r.find? a).map f := by
  show (update f a r.active).find? _ = (r.active.find? _).map f
  induction r.active with
  | nil => rfl
  | cons p rest ih =>
      rw [update]
      by_cases hp : p.address.sameParty a = true
      · rw [if_pos hp, List.find?_cons_of_pos (by simpa [h] using hp),
          List.find?_cons_of_pos (by simpa using hp)]
        rfl
      · rw [if_neg hp, List.find?_cons_of_neg (by simpa using hp),
          List.find?_cons_of_neg (by simpa using hp), ih]

@[simp] theorem modify_removed (f : Participant → Participant) :
    (r.modify a f).removed = r.removed := rfl

/-! ## Lists without repeated parties -/

/-- No two participants name the same party. -/
def Distinct (l : List Participant) : Prop :=
  l.Pairwise fun p q => p.address.sameParty q.address = false

theorem distinct_iff_map :
    Distinct l ↔ (l.map (·.address)).Pairwise fun a b => a.sameParty b = false := by
  rw [List.pairwise_map]
  rfl

/-- Distinctness looks at addresses only. -/
theorem Distinct.of_map_eq {l' : List Participant} (h : Distinct l)
    (heq : l'.map (·.address) = l.map (·.address)) : Distinct l' := by
  rw [distinct_iff_map, heq, ← distinct_iff_map]
  exact h

theorem Distinct.sublist {l' : List Participant} (h : Distinct l) (hs : l'.Sublist l) :
    Distinct l' :=
  List.Pairwise.sublist hs h

/-- Once a party is found, nobody after it is of this party. -/
theorem Distinct.rest {rest : List Participant} (h : Distinct (p :: rest))
    (hp : p.address.sameParty a = true) : ∀ q ∈ rest, q.address.sameParty a = false := by
  intro q hq
  by_contra hne
  have hqa : a.sameParty q.address = true := by
    rw [Address.sameParty_comm]
    simpa using hne
  have hpq := Address.sameParty_trans hp hqa
  rw [(List.pairwise_cons.mp h).1 q hq] at hpq
  exact Bool.noConfusion hpq

theorem Distinct.tail {rest : List Participant} (h : Distinct (p :: rest)) : Distinct rest :=
  (List.pairwise_cons.mp h).2

theorem update_eq_map {f : Participant → Participant} (h : Distinct l) :
    update f a l = l.map fun p => if p.address.sameParty a then f p else p := by
  induction l with
  | nil => rfl
  | cons p rest ih =>
      rw [update, List.map_cons]
      by_cases hp : p.address.sameParty a = true
      · rw [if_pos hp, if_pos hp]
        have hrest : rest.map (fun p => if p.address.sameParty a then f p else p) = rest := by
          rw [List.map_congr_left (g := id)]
          · exact List.map_id rest
          · intro q hq
            simp [h.rest hp q hq]
        rw [hrest]
      · rw [if_neg hp, if_neg hp, ih h.tail]

/-- A party is listed at most once. -/
theorem filter_eq_find? (h : Distinct l) :
    (l.filter fun p => p.address.sameParty a) =
      (l.find? fun p => p.address.sameParty a).toList := by
  induction l with
  | nil => rfl
  | cons p rest ih =>
      rw [List.filter_cons, List.find?_cons]
      by_cases hp : p.address.sameParty a = true
      · have hnone : rest.filter (fun q => q.address.sameParty a) = [] := by
          rw [List.filter_eq_nil_iff]
          intro q hq
          simp [h.rest hp q hq]
        rw [if_pos hp, hp, hnone]
        rfl
      · rw [if_neg hp, ih h.tail]
        rw [Bool.not_eq_true] at hp
        rw [hp]

/-- A party that takes part has one entry, and everybody else is before or
after it. -/
theorem split_of_find? (h : Distinct r.active) (hfind : r.find? a = some p) :
    ∃ before after, r.active = before ++ p :: after ∧ a.sameParty p.address = true ∧
      ∀ q ∈ before ++ after, a.sameParty q.address = false := by
  obtain ⟨hp, before, after, hactive, hbefore⟩ := List.find?_eq_some_iff_append.mp hfind
  refine ⟨before, after, hactive, (Address.sameParty_comm _ _).trans hp, ?_⟩
  intro q hq
  rw [Address.sameParty_comm]
  rcases List.mem_append.mp hq with hq | hq
  · simpa using hbefore q hq
  · rw [hactive] at h
    exact (h.sublist (List.sublist_append_right before _)).rest hp q hq

/-- A removal filters the list. -/
theorem eraseP_eq_filter (h : Distinct l) :
    (l.eraseP fun p => p.address.sameParty a) = l.filter fun p => !p.address.sameParty a := by
  induction l with
  | nil => rfl
  | cons p rest ih =>
      by_cases hp : p.address.sameParty a = true
      · have hrest : rest.filter (fun q => !q.address.sameParty a) = rest := by
          rw [List.filter_eq_self]
          intro q hq
          simp [h.rest hp q hq]
        rw [List.eraseP_cons_of_pos (by exact hp), List.filter_cons_of_neg (by simp [hp]), hrest]
      · rw [List.eraseP_cons_of_neg (by exact hp), List.filter_cons_of_pos (by simpa using hp),
          ih h.tail]

/-! ## Coming and going -/

theorem add_active_of_none (h : r.find? p.address = none) :
    (r.add p).active = r.active ++ [p] := by
  simp [add, h]

@[simp] theorem add_removed : (r.add p).removed = r.removed := by
  unfold add
  split <;> rfl

theorem Distinct.add (h : Distinct r.active) : Distinct (r.add p).active := by
  cases hp : r.find? p.address with
  | some q => simpa [Roster.add, hp] using h
  | none =>
      rw [add_active_of_none hp]
      refine List.pairwise_append.mpr ⟨h, List.pairwise_singleton _ _, ?_⟩
      intro q hq q' hq'
      rw [List.mem_singleton] at hq'
      subst hq'
      exact find?_eq_none_iff.mp hp q hq

theorem remove_active : (r.remove a).active = r.active.eraseP fun q => q.address.sameParty a := by
  cases h : r.find? a with
  | some p => simp [remove, h]
  | none =>
      have hnone : ∀ q ∈ r.active, ¬ q.address.sameParty a = true := by
        simpa using find?_eq_none_iff.mp h
      rw [List.eraseP_of_forall_not hnone]
      simp [remove, h]

theorem remove_removed (h : r.find? a = some p) :
    (r.remove a).removed = if p.session?.isSome then r.removed ++ [p] else r.removed := by
  simp [remove, h]

theorem Distinct.remove (h : Distinct r.active) : Distinct (r.remove a).active := by
  rw [remove_active]
  exact h.sublist List.eraseP_sublist

/-! ## Administrators -/

/-- The roster with its oldest participant as administrator, if it has none. -/
def settled (r : Roster) : Roster :=
  match r.active with
  | [] => r
  | oldest :: rest =>
    if r.active.any (·.isAdmin) then r
    else { r with active := { oldest with isAdmin := true } :: rest }

@[simp] theorem settled_removed : r.settled.removed = r.removed := by
  unfold settled
  split
  · rfl
  · split <;> rfl

theorem settled_addresses : r.settled.active.map (·.address) = r.active.map (·.address) := by
  unfold settled
  split
  · rfl
  · rename_i oldest rest hactive
    split
    · rfl
    · simp [hactive]

theorem settled_ne_nil_iff : r.settled.active ≠ [] ↔ r.active ≠ [] := by
  have h := congrArg List.length (settled_addresses (r := r))
  rw [List.length_map, List.length_map] at h
  rw [← List.length_pos_iff, ← List.length_pos_iff, h]

/-- Administrators that are not of this party, by their addresses. -/
def otherAdmins (r : Roster) (a : Address) : List Address :=
  (r.admins.filter fun p => !p.address.sameParty a).map (·.address)

theorem mem_otherAdmins_iff {b : Address} :
    b ∈ r.otherAdmins a ↔ ∃ p ∈ r.active,
      p.address.sameParty a = false ∧ p.isAdmin = true ∧ p.address = b := by
  simp [otherAdmins, admins, and_assoc]

theorem any_otherAdmins_of_sameParty (h : p.address.sameParty a = true) :
    ((r.otherAdmins a).any fun b => p.address.sameParty b) = false := by
  rw [List.any_eq_false]
  intro b hb hpb
  obtain ⟨q, -, hq, -, rfl⟩ := mem_otherAdmins_iff.mp hb
  rw [Address.sameParty_comm] at hpb
  rw [Address.sameParty_trans hpb h] at hq
  exact Bool.noConfusion hq

theorem any_otherAdmins_of_admin (hp : p ∈ r.active) (hadmin : p.isAdmin = true)
    (h : p.address.sameParty a = false) :
    ((r.otherAdmins a).any fun b => p.address.sameParty b) = true := by
  rw [List.any_eq_true]
  exact ⟨p.address, mem_otherAdmins_iff.mpr ⟨p, hp, h, hadmin, rfl⟩,
    Address.sameParty_refl p.address⟩

end Switchboard.Room.Roster
