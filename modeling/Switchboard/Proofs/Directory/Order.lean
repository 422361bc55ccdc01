import Switchboard.Directory.Service
import Switchboard.Proofs.Directory.Rooms

/-!
# The order of the rooms

A sound directory may hold its rooms in any order: whatever is routed by an
address finds the same room, and a new address is free in every order or in
none. Only a session can belong to two rooms at once, so what becomes of one
is left out here.
-/

namespace Switchboard.Directory

variable {d d' : Directory} {a : Address} {α : Type}

/-- The same directory, with its rooms in another order. -/
structure Reordered (d d' : Directory) : Prop where
  factory : d'.factory = d.factory
  maxAttempts : d'.maxAttempts = d.maxAttempts
  rooms : d.rooms.Perm d'.rooms

/-- Both give the same result and the same effects, and leave the same rooms,
in some order. -/
structure Agree (out out' : α × Directory × List Room.Effect) : Prop where
  result : out'.1 = out.1
  directory : Reordered out.2.1 out'.2.1
  effects : out'.2.2 = out.2.2

theorem Sound.reordered (h : Sound d) (hd : Reordered d d') : Sound d' where
  live := fun room hroom => h.live room (hd.rooms.mem_iff.mpr hroom)
  apart := hd.rooms.pairwise h.apart fun h => Std.Symm.symm _ _ h

/-! ## Finding a room -/

theorem find?_reordered (h : Sound d) (hd : Reordered d d') (a : Address) :
    d'.find? a = d.find? a := by
  apply Option.ext
  intro room
  rw [h.find?_eq_some_iff, (h.reordered hd).find?_eq_some_iff, hd.rooms.mem_iff]

theorem isTaken_reordered (hd : Reordered d d') : d'.isTaken = d.isTaken := by
  funext a
  rw [Bool.eq_iff_iff]
  unfold isTaken
  rw [List.any_eq_true, List.any_eq_true]
  simp only [hd.rooms.mem_iff]

theorem replaceFirst_perm {p : Room → Bool} {rooms rooms' : List Room} {room : Room}
    (h : rooms.find? p = some room) (h' : rooms'.find? p = some room)
    (hperm : rooms.Perm rooms') (new : Room) :
    (replaceFirst p new rooms).Perm (replaceFirst p new rooms') := by
  obtain ⟨front, back, hrooms, hnew⟩ := replaceFirst_of_find? h
  obtain ⟨front', back', hrooms', hnew'⟩ := replaceFirst_of_find? h'
  -- what is left without the room found is the same on both sides
  have hrest : (front ++ back).Perm (front' ++ back') := by
    rw [hrooms, hrooms'] at hperm
    exact ((List.perm_middle.symm.trans hperm).trans List.perm_middle).cons_inv
  rw [hnew, hnew']
  exact List.perm_middle.trans ((hrest.cons new).trans List.perm_middle.symm)

theorem onFirst_reordered (h : Sound d) (hd : Reordered d d') (a : Address)
    (op : Room.Operation) :
    (d.onFirst (isAt a) op = none ∧ d'.onFirst (isAt a) op = none) ∨
      ∃ out out', d.onFirst (isAt a) op = some out ∧ d'.onFirst (isAt a) op = some out' ∧
        Agree out out' := by
  have hfind' := find?_reordered h hd a
  cases hfind : d.find? a with
  | none =>
      rw [hfind] at hfind'
      exact .inl ⟨onFirst_of_none hfind op, onFirst_of_none hfind' op⟩
  | some room =>
      rw [hfind] at hfind'
      refine .inr ⟨_, _, onFirst_of_find? hfind op, onFirst_of_find? hfind' op, rfl, ?_, rfl⟩
      exact ⟨hd.factory, hd.maxAttempts, replaceFirst_perm hfind hfind' hd.rooms _⟩

/-! ## Every request but a change of a session -/

theorem prune_reordered (hd : Reordered d d') : Reordered d.prune d'.prune where
  factory := hd.factory
  maxAttempts := hd.maxAttempts
  rooms := hd.rooms.filter _

theorem create_reordered (hd : Reordered d d') (tokens : Nat → String) (request : Room.Invite) :
    Agree (d.create tokens request) (d'.create tokens request) := by
  unfold create
  rw [isTaken_reordered hd, hd.maxAttempts]
  split
  · exact ⟨rfl, ⟨hd.factory, rfl, hd.rooms.append_right _⟩, rfl⟩
  · exact ⟨rfl, hd, rfl⟩

theorem invite_reordered (h : Sound d) (hd : Reordered d d') (tokens : Nat → String)
    (request : Room.Invite) : Agree (d.invite tokens request) (d'.invite tokens request) := by
  unfold invite
  rw [hd.factory, find?_reordered h hd]
  split
  · exact create_reordered hd tokens request
  · rcases onFirst_reordered h hd request.target (.join request) with
      ⟨hout, hout'⟩ | ⟨out, out', hout, hout', hagree⟩
    · rw [hout, hout']
      cases (d.find? request.target).bind (·.conference?) <;> exact ⟨rfl, hd, rfl⟩
    · rw [hout, hout']
      obtain ⟨answer, after⟩ := out
      obtain ⟨answer', after'⟩ := out'
      obtain ⟨rfl, hdirectory, heffects⟩ := hagree
      cases (d.find? request.target).bind (·.conference?) with
      | none => exact ⟨rfl, hd, rfl⟩
      | some conference => cases answer' <;> exact ⟨rfl, hdirectory, heffects⟩

theorem relay_reordered (h : Sound d) (hd : Reordered d d') (message : Room.IncomingMessage) :
    Agree (d.relay message) (d'.relay message) := by
  unfold relay
  rcases onFirst_reordered h hd message.target (.relay message) with
    ⟨hout, hout'⟩ | ⟨out, out', hout, hout', hagree⟩
  · rw [hout, hout']
    exact ⟨rfl, hd, rfl⟩
  · rw [hout, hout']
    obtain ⟨answer, after⟩ := out
    obtain ⟨answer', after'⟩ := out'
    obtain ⟨rfl, hdirectory, heffects⟩ := hagree
    cases answer' with
    | reason reason => exact ⟨rfl, hdirectory, heffects⟩
    | _ => exact ⟨rfl, hd, rfl⟩

theorem addParticipant_reordered (h : Sound d) (hd : Reordered d d') (room participant : Address) :
    Agree (d.addParticipant room participant) (d'.addParticipant room participant) := by
  unfold addParticipant
  rcases onFirst_reordered h hd room (.invite participant) with
    ⟨hout, hout'⟩ | ⟨out, out', hout, hout', hagree⟩
  · rw [hout, hout']
    exact ⟨rfl, hd, rfl⟩
  · rw [hout, hout']
    exact ⟨congrArg resultOf hagree.result, hagree.directory, hagree.effects⟩

theorem removeParticipant_reordered (h : Sound d) (hd : Reordered d d')
    (room participant : Address) :
    Agree (d.removeParticipant room participant) (d'.removeParticipant room participant) := by
  unfold removeParticipant
  rcases onFirst_reordered h hd room (.expel participant) with
    ⟨hout, hout'⟩ | ⟨out, out', hout, hout', hagree⟩
  · rw [hout, hout']
    exact ⟨rfl, hd, rfl⟩
  · rw [hout, hout']
    exact ⟨congrArg resultOf hagree.result, prune_reordered hagree.directory, hagree.effects⟩

/-- What is asked of an address has the same answer and the same effects in
every order of the rooms. -/
theorem step_reordered (h : Sound d) (hd : Reordered d d') {request : Request}
    (hrequest : ∀ session change, request ≠ .sessionChanged session change) :
    Agree (d.step request) (d'.step request) := by
  cases request with
  | invite tokens request =>
      have hagree := invite_reordered h hd tokens request
      exact ⟨rfl, hagree.directory, hagree.effects⟩
  | message message =>
      have hagree := relay_reordered h hd message
      exact ⟨congrArg Answer.reason hagree.result, hagree.directory, hagree.effects⟩
  | sessionChanged session change => exact absurd rfl (hrequest session change)
  | addParticipant room participant =>
      have hagree := addParticipant_reordered h hd room participant
      exact ⟨congrArg Answer.result hagree.result, hagree.directory, hagree.effects⟩
  | removeParticipant room participant =>
      have hagree := removeParticipant_reordered h hd room participant
      exact ⟨congrArg Answer.result hagree.result, hagree.directory, hagree.effects⟩

end Switchboard.Directory
