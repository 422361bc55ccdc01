import Switchboard.Proofs.Room.Administrator

/-!
# Sessions that end

A session can be held more than once in a room: by a participant that was
removed and waits for its end, and by the same party once it has been invited
and has joined again within it. The end of a session lets go of one holder, an
active one if there is any, so nobody holds it afterwards exactly if it was
held at most once.
-/

namespace Switchboard.Room

variable {r : Room} {p : Participant} {l : List Participant} {s : Session}

/-! ## Counting holders -/

/-- How many of these participants hold the session. -/
def holders (s : Session) (l : List Participant) : Nat :=
  l.countP fun p => p.session? = some s

theorem holders_append (s : Session) (l rest : List Participant) :
    holders s (l ++ rest) = holders s l + holders s rest :=
  List.countP_append

theorem holders_singleton (h : p.session? = some s) : holders s [p] = 1 := by
  rw [holders, List.countP_singleton, if_pos (by simpa using h)]

theorem holders_eq_zero_iff : holders s l = 0 ↔ ∀ p ∈ l, p.session? ≠ some s := by
  unfold holders
  rw [List.countP_eq_zero]
  simp

/-- Holders are counted by sessions alone. -/
theorem holders_congr {l' : List Participant}
    (h : l'.map (·.session?) = l.map (·.session?)) : holders s l' = holders s l := by
  have hcount : ∀ l : List Participant,
      holders s l = (l.map (·.session?)).countP fun session? => session? = some s := by
    intro l
    rw [List.countP_map]
    rfl
  rw [hcount, hcount, h]

/-- Taking out whom a search has found leaves all others. -/
theorem perm_of_find? {q : Participant → Bool} (h : l.find? q = some p) :
    l.Perm (p :: l.eraseP q) := by
  obtain ⟨hq, before, after, rfl, hbefore⟩ := List.find?_eq_some_iff_append.mp h
  have hnone : ∀ b ∈ before, ¬q b = true := by
    intro b hb
    simpa using hbefore b hb
  rw [List.eraseP_append_right _ hnone, List.eraseP_cons_of_pos hq]
  exact List.perm_middle

theorem holders_eraseP {q : Participant → Bool} (h : l.find? q = some p)
    (hp : p.session? = some s) : holders s (l.eraseP q) = holders s l - 1 := by
  have hperm : holders s l = holders s (p :: l.eraseP q) := (perm_of_find? h).countP_eq _
  rw [← List.singleton_append, holders_append, holders_singleton hp] at hperm
  omega

/-! ## Letting go -/

namespace Roster

variable {r : Roster}

/-- A participant is found by its own address. -/
theorem find?_of_mem (h : Distinct r.active) (hp : p ∈ r.active) :
    r.find? p.address = some p := by
  have hone := filter_eq_find? (a := p.address) h
  have hmem : p ∈ r.active.filter fun q => q.address.sameParty p.address :=
    List.mem_filter.mpr ⟨hp, Address.sameParty_refl p.address⟩
  rw [hone] at hmem
  exact Option.mem_toList.mp hmem

theorem settled_sessions : r.settled.active.map (·.session?) = r.active.map (·.session?) := by
  unfold settled
  split
  · rfl
  · rename_i oldest rest hactive
    split
    · rfl
    · simp [hactive]

theorem bySession?_eq_none_iff : r.bySession? s = none ↔ holders s r.active = 0 := by
  rw [holders_eq_zero_iff]
  simp [bySession?]

/-- A participant with a session is one holder less among the active ones, and
one more among those removed. -/
theorem holders_remove (h : Distinct r.active) (hp : p ∈ r.active)
    (hsession : p.session? = some s) :
    holders s (r.remove p.address).settled.active = holders s r.active - 1 ∧
      holders s (r.remove p.address).settled.removed = holders s r.removed + 1 := by
  have hfind := find?_of_mem h hp
  constructor
  · rw [holders_congr settled_sessions, remove_active]
    exact holders_eraseP hfind hsession
  · rw [settled_removed, remove_removed hfind, if_pos (by simp [hsession]), holders_append,
      holders_singleton hsession]

theorem holders_discard (r : Roster) (s : Session) :
    holders s (r.discard s).removed = holders s r.removed - 1 := by
  cases hfind : r.removedBySession? s with
  | some p =>
      have hp : p.session? = some s := by
        simpa using List.find?_some hfind
      exact holders_eraseP hfind hp
  | none =>
      have hnone : ∀ p ∈ r.removed, p.session? ≠ some s := by
        simpa [removedBySession?] using hfind
      have hkept : (r.discard s).removed = r.removed :=
        List.eraseP_of_forall_not (by simpa using hnone)
      rw [hkept, holders_eq_zero_iff.mpr hnone]

end Roster

/-- An active holder departs, and is forgotten at once in the place of one that
was removed before. -/
theorem ended_roster (session : Session) (r : Room) :
    (sessionChanged session .ended r).1.roster =
      (match r.roster.bySession? session with
        | some p => (depart p.address r).1.roster
        | none => r.roster).discard session := by
  unfold sessionChanged
  dsimp only
  rw [andThen_apply]
  cases r.roster.bySession? session <;> rfl

theorem holders_ended (h : Roster.Distinct r.roster.active) (session : Session) :
    let after := (sessionChanged session .ended r).1.roster
    holders session after.active = holders session r.roster.active - 1 ∧
      holders session after.removed =
        if holders session r.roster.active = 0 then holders session r.roster.removed - 1
        else holders session r.roster.removed := by
  intro after
  have hafter : after = _ := ended_roster session r
  cases hfind : r.roster.bySession? session with
  | none =>
      rw [hfind] at hafter
      have hzero := Roster.bySession?_eq_none_iff.mp hfind
      rw [hafter, if_pos hzero]
      refine ⟨?_, Roster.holders_discard _ _⟩
      show holders session r.roster.active = _
      omega
  | some p =>
      rw [hfind] at hafter
      have hp := Roster.bySession?_mem hfind
      have hsession : p.session? = some session := by
        simpa using List.find?_some hfind
      have hpos : holders session r.roster.active ≠ 0 := by
        intro hzero
        rw [Roster.bySession?_eq_none_iff.mpr hzero] at hfind
        exact absurd hfind (by simp)
      obtain ⟨hactive, hremoved⟩ := Roster.holders_remove h hp hsession
      have hdepart := depart_roster (Roster.find?_isSome_of_mem hp)
      rw [hafter, if_neg hpos]
      dsimp only
      rw [hdepart, Roster.holders_discard, hremoved]
      exact ⟨hactive, Nat.add_sub_cancel _ 1⟩

/-- **The end of a session lets go of one holder.** After any history the end
of a session takes out the first active participant that holds it, if there is
one, and otherwise forgets the first removed one; every other holder keeps it.
So the session leaves no trace exactly if at most one participant, active or
removed, held it. -/
theorem ended_session_released (invite : Invite) (ops : List Operation) (session : Session) :
    let before := ((ofInvite invite).run ops).1.roster
    let after := (sessionChanged session .ended ((ofInvite invite).run ops).1).1.roster
    holders session after.active = holders session before.active - 1 ∧
      holders session after.removed =
        (if holders session before.active = 0 then holders session before.removed - 1
          else holders session before.removed) ∧
      ((∀ p ∈ after.active ++ after.removed, p.session? ≠ some session) ↔
        holders session (before.active ++ before.removed) ≤ 1) := by
  intro before after
  have hdistinct : Roster.Distinct before.active := (run_orderly invite ops).distinct
  have hactive : holders session after.active = holders session before.active - 1 :=
    (holders_ended hdistinct session).1
  have hremoved : holders session after.removed =
      if holders session before.active = 0 then holders session before.removed - 1
      else holders session before.removed := (holders_ended hdistinct session).2
  refine ⟨hactive, hremoved, ?_⟩
  rw [← holders_eq_zero_iff, holders_append, holders_append, hactive, hremoved]
  split <;> omega

/-- Bob is taken out before his session ends, invited again and received within
the same session; when it ends, the room goes on waiting for its end. -/
theorem ended_session_kept :
    let party (name : String) : Address := { user? := some name, host := "localhost" }
    let call (session name : String) : Invite :=
      { session := ⟨session⟩, sender := party name, target := party "room"
        contact := party name }
    let ops : List Operation := [.establish (fun _ => false) (fun _ => "a") 1,
      .join (call "1" "alice"), .invite (party "bob"), .join (call "2" "bob"),
      .expel (party "bob"), .invite (party "bob"), .join (call "2" "bob")]
    let after := (sessionChanged ⟨"2"⟩ .ended ((ofInvite (call "1" "alice")).run ops).1).1
    after.roster.removed =
        [{ address := party "bob", contact := party "bob", session? := some ⟨"2"⟩ }] ∧
      after.ownsSession ⟨"2"⟩ = true := by
  decide +kernel

end Switchboard.Room
