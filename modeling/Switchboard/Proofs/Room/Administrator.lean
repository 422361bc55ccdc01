import Switchboard.Proofs.Room.Creation
import Switchboard.Proofs.Room.Move

/-!
# One administrator

In every room that operations lead to, no party takes part twice, one
participant is administrator whenever anybody takes part, and the removed
participants that are kept all have a session to wait for. The three belong
together: participants are found by their party, so the role can be moved
safely only while a party is listed once.
-/

namespace Switchboard.Room

namespace Roster

structure Orderly (r : Roster) : Prop where
  distinct : Distinct r.active
  oneAdmin : r.active ≠ [] → r.admins.length = 1
  waiting : ∀ p ∈ r.removed, p.session?.isSome

variable {r : Roster} {a : Address} {p : Participant}

theorem orderly_empty : Orderly {} where
  distinct := List.Pairwise.nil
  oneAdmin := fun h => absurd rfl h
  waiting := by simp

/-! ## Counting administrators -/

theorem admins_length : r.admins.length = (r.active.map (·.isAdmin)).count true := by
  rw [admins, ← List.countP_eq_length_filter, List.count, List.countP_map]
  congr 1
  funext p
  simp

/-- Administrators are as many as the roles that are set, wherever these
are. -/
theorem admins_length_congr {r' : Roster}
    (h : r'.active.map (·.isAdmin) = r.active.map (·.isAdmin)) :
    r'.admins.length = r.admins.length := by
  rw [admins_length, admins_length, h]

theorem admins_length_settled (h : r.admins.length ≤ 1) (hne : r.settled.active ≠ []) :
    r.settled.admins.length = 1 := by
  have hactive := settled_ne_nil_iff.mp hne
  unfold settled
  split
  · rename_i hnil
    exact absurd hnil hactive
  · rename_i oldest rest hcons
    split
    · rename_i hany
      have hpos : 0 < r.admins.length := by
        rw [List.any_eq_true] at hany
        obtain ⟨p, hp, hadmin⟩ := hany
        exact List.length_pos_of_mem (List.mem_filter.mpr ⟨hp, hadmin⟩)
      omega
    · rename_i hnone
      have hrest : rest.filter (·.isAdmin) = [] := by
        rw [List.filter_eq_nil_iff]
        intro p hp hadmin
        apply hnone
        rw [List.any_eq_true]
        exact ⟨p, by rw [hcons]; exact List.mem_cons_of_mem _ hp, hadmin⟩
      simp [admins, hrest]

/-! ## What keeps the order -/

theorem Orderly.modify {f : Participant → Participant} (h : Orderly r)
    (haddress : ∀ p, (f p).address = p.address) (hadmin : ∀ p, (f p).isAdmin = p.isAdmin) :
    Orderly (r.modify a f) where
  distinct := h.distinct.of_map_eq (map_update haddress)
  oneAdmin := by
    intro hne
    rw [admins_length_congr (map_update hadmin)]
    apply h.oneAdmin
    intro hnil
    apply hne
    show update f a r.active = []
    rw [hnil]
    rfl
  waiting := h.waiting

theorem Orderly.addFirst (h : Orderly r) (hempty : r.active = []) (hp : p.isAdmin = true) :
    Orderly (r.add p) where
  distinct := h.distinct.add
  oneAdmin := by
    intro _
    have hnone : r.find? p.address = none := by simp [find?, hempty]
    rw [admins, add_active_of_none hnone, hempty]
    simp [hp]
  waiting := by
    rw [add_removed]
    exact h.waiting

theorem Orderly.addGuest (h : Orderly r) (hsome : r.active ≠ [])
    (hnew : r.find? p.address = none) (hp : p.isAdmin = false) : Orderly (r.add p) where
  distinct := h.distinct.add
  oneAdmin := by
    intro _
    rw [admins, add_active_of_none hnew, List.filter_append,
      List.filter_cons_of_neg (by simp [hp]), List.filter_nil, List.append_nil]
    exact h.oneAdmin hsome
  waiting := by
    rw [add_removed]
    exact h.waiting

theorem Orderly.remove (h : Orderly r) (hfind : r.find? a = some p) :
    Orderly (r.remove a).settled where
  distinct := h.distinct.remove.of_map_eq settled_addresses
  oneAdmin := by
    have hsome : r.active ≠ [] := List.ne_nil_of_mem (mem_of_find? hfind)
    -- one administrator at most is left, and settling makes one where none is
    have hsub : (r.remove a).admins.Sublist r.admins := by
      rw [admins, remove_active]
      exact List.Sublist.filter _ List.eraseP_sublist
    apply admins_length_settled
    rw [← h.oneAdmin hsome]
    exact hsub.length_le
  waiting := by
    rw [settled_removed, remove_removed hfind]
    split
    · rename_i hsession
      intro q hq
      rcases List.mem_append.mp hq with hq | hq
      · exact h.waiting q hq
      · rw [List.mem_singleton] at hq
        rw [hq]
        exact hsession
    · exact h.waiting

theorem Orderly.discard (h : Orderly r) (s : Session) : Orderly (r.discard s) where
  distinct := h.distinct
  oneAdmin := h.oneAdmin
  waiting := fun p hp => h.waiting p (List.eraseP_subset hp)

/-- The role goes to exactly one participant, since its party is listed
once. -/
theorem Orderly.elect {r' : Roster} (h : Orderly r) (hfind : (r.find? a).isSome)
    (hactive : r'.active = r.active.map fun p => { p with isAdmin := p.address.sameParty a })
    (hremoved : r'.removed = r.removed) : Orderly r' where
  distinct := h.distinct.of_map_eq (by
    rw [hactive, List.map_map]
    rfl)
  oneAdmin := by
    intro _
    obtain ⟨p, hp⟩ := Option.isSome_iff_exists.mp hfind
    have hone := filter_eq_find? (a := a) h.distinct
    rw [← find?, hp, Option.toList_some] at hone
    rw [admins, hactive, List.filter_map, List.length_map]
    show (r.active.filter fun p => p.address.sameParty a).length = 1
    rw [hone]
    rfl
  waiting := by
    rw [hremoved]
    exact h.waiting

end Roster

/-! ## Every move keeps the order -/

theorem Visit.orderly {r : Room} {out : Room × List Effect} (h : Visit r out)
    (hr : r.roster.Orderly) : out.1.roster.Orderly := by
  cases h with
  | emit effect _ => exact hr
  | tell recipient => exact hr
  | setSubject subject =>
      rw [setSubject_roster]
      exact hr
  | found a _ hempty => exact hr.addFirst hempty rfl
  | welcome a _ hsome hnew => exact hr.addGuest hsome hnew rfl
  | connect request _ _ => exact hr.modify (fun _ => rfl) fun _ => rfl

theorem Move.orderly {r : Room} {out : Room × List Effect} (h : Move r out)
    (hr : r.roster.Orderly) : out.1.roster.Orderly := by
  cases h with
  | visit h => exact h.orderly hr
  | establish taken tokens attempts _ =>
      rw [establish_roster]
      exact hr
  | depart a hfind =>
      rw [depart_roster hfind]
      obtain ⟨p, hp⟩ := Option.isSome_iff_exists.mp hfind
      exact hr.remove hp
  | transfer a hfind =>
      exact hr.elect hfind (transferAdmin_active hr.distinct hfind) (transferAdmin_removed a r)
  | forget session => exact hr.discard session

theorem Chain.orderly {r : Room} {out : Room × List Effect} (h : Chain Move r out)
    (hr : r.roster.Orderly) : out.1.roster.Orderly :=
  h.lift (P := fun r out => r.roster.Orderly → out.1.roster.Orderly) (fun _ h => h)
    (fun _ _ _ hfirst hlast h => hlast (hfirst h)) (fun _ _ => Move.orderly) hr

theorem run_orderly (invite : Invite) (ops : List Operation) :
    ((ofInvite invite).run ops).1.roster.Orderly :=
  (moves_run _ ops).orderly Roster.orderly_empty

/-- **One administrator.** After any history of a room no two participants
name the same party, exactly one participant is administrator if there is any,
and every removed participant that is kept has a session. -/
theorem one_administrator (invite : Invite) (ops : List Operation) :
    let roster := ((ofInvite invite).run ops).1.roster
    (roster.active.Pairwise fun p q => p.address.sameParty q.address = false) ∧
      (roster.active ≠ [] → (roster.active.filter (·.isAdmin)).length = 1) ∧
      ∀ p ∈ roster.removed, ∃ session, p.session? = some session := by
  have h := run_orderly invite ops
  refine ⟨h.distinct, h.oneAdmin, ?_⟩
  intro p hp
  exact Option.isSome_iff_exists.mp (h.waiting p hp)

end Switchboard.Room
