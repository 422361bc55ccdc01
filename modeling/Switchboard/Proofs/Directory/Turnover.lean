import Switchboard.Directory.Service
import Switchboard.Proofs.Directory.Rooms
import Switchboard.Proofs.Room.Closing

/-!
# What a request does to the rooms

A request that a sound directory serves does one of three things to its rooms:
it leaves them all where they are, it adds one at an address that was free, or
it takes one out whose deletion is told once. The directory stays sound, and
its rooms can be counted by what has been told.
-/

namespace Switchboard.Directory

open Room (closings Calm)

variable {d : Directory} {room : Room} {p : Room → Bool} {op : Room.Operation}

/-- What the directory relies on in a room. -/
def standing (room : Room) : Room.State × Option Address :=
  (room.state, room.conference?)

/-- The request asks the factory for a room, and there is one to be had. -/
def creates (d : Directory) : Request → Bool
  | .invite tokens request =>
    request.target.sameParty d.factory && (d.invite tokens request).1.isOk
  | _ => false

theorem creates_invite (d : Directory) (tokens : Nat → String) (request : Room.Invite) :
    d.creates (.invite tokens request) =
      (request.target.sameParty d.factory && (d.invite tokens request).1.isOk) := rfl

/-- What becomes of the rooms; the flag says whether a room is created. -/
inductive Turnover (d : Directory) : Bool → Directory × List Room.Effect → Prop
  | keeps {out : Directory × List Room.Effect}
      (standings : out.1.rooms.map standing = d.rooms.map standing)
      (silent : closings out.2 = []) : Turnover d false out
  | gains {out : Directory × List Room.Effect} (room : Room) (a : Address)
      (free : d.isTaken a = false) (state : room.state = .created)
      (conference : room.conference? = some a) (rooms : out.1.rooms = d.rooms ++ [room])
      (silent : closings out.2 = []) : Turnover d true out
  | loses {out : Directory × List Room.Effect} (front back : List Room) (room : Room)
      (before : d.rooms = front ++ room :: back) (after : out.1.rooms = front ++ back)
      (once : closings out.2 = [room.conference?]) : Turnover d false out

/-! ## Operations on one room -/

/-- A room that keeps its standing takes the place of the old one. -/
theorem standings_replaceFirst {rooms : List Room} (h : rooms.find? p = some room) {new : Room}
    (hnew : standing new = standing room) :
    (replaceFirst p new rooms).map standing = rooms.map standing := by
  obtain ⟨front, back, hrooms, hreplace⟩ := replaceFirst_of_find? h
  rw [hreplace, hrooms]
  simp only [List.map_append, List.map_cons, hnew]

theorem standing_of_calm {out : Room × List Room.Effect} (h : Calm room out) :
    standing out.1 = standing room :=
  Prod.ext h.state h.conference

theorem onFirst_turnover {answer : Room.Answer} {out : Directory × List Room.Effect}
    (h : d.onFirst p op = some (answer, out))
    (hvisit : ∀ room : Room, Room.Chain Room.Visit room (room.step op).2) :
    Turnover d false out := by
  obtain ⟨room, hfind, -, rfl⟩ := find?_of_onFirst h
  have hcalm := Room.calm_of_visits (hvisit room)
  exact .keeps (standings_replaceFirst hfind (standing_of_calm hcalm)) hcalm.silent

theorem filter_live {rooms : List Room} (h : ∀ room ∈ rooms, room.state = .created) :
    (rooms.filter fun room => !room.isTerminated) = rooms := by
  rw [List.filter_eq_self]
  intro room hroom
  simp [Room.isTerminated, h room hroom]

/-- Whatever is asked of a room, pruning afterwards drops the room if this
ended it, and nothing else. -/
theorem onFirst_prune_turnover {answer : Room.Answer} {out : Directory × List Room.Effect}
    (hd : Sound d) (h : d.onFirst p op = some (answer, out)) :
    Turnover d false (out.1.prune, out.2) := by
  obtain ⟨room, hfind, -, rfl⟩ := find?_of_onFirst h
  have hcreated := (hd.live room (List.mem_of_find?_eq_some hfind)).1
  obtain ⟨front, back, hrooms, hreplace⟩ := replaceFirst_of_find? hfind
  -- pruning leaves the rooms before and after it alone, whatever became of this one
  have hlive : ∀ r ∈ front ++ back, r.state = .created := by
    intro r hr
    have hmem : r ∈ d.rooms := by
      rw [hrooms, List.mem_append, List.mem_cons]
      rcases List.mem_append.mp hr with hr | hr
      · exact .inl hr
      · exact .inr (.inr hr)
    exact (hd.live r hmem).1
  have hfront := filter_live fun r hr => hlive r (List.mem_append_left back hr)
  have hback := filter_live fun r hr => hlive r (List.mem_append_right front hr)
  rcases Room.step_settles op (r := room) (by simp [hcreated]) with hcalm | hends
  · refine .keeps ?_ hcalm.silent
    have hkept : (room.step op).2.1.isTerminated = false := by
      simp [Room.isTerminated, hcalm.state, hcreated]
    show (List.filter _ (replaceFirst p (room.step op).2.1 d.rooms)).map standing = _
    rw [hreplace, List.filter_append, List.filter_cons_of_pos (by simp [hkept]), hfront, hback,
      hrooms]
    simp only [List.map_append, List.map_cons, standing_of_calm hcalm]
  · refine .loses front back room hrooms ?_ hends.once
    have hdropped : (room.step op).2.1.isTerminated = true := by
      simp [Room.isTerminated, hends.state]
    show List.filter _ (replaceFirst p (room.step op).2.1 d.rooms) = _
    rw [hreplace, List.filter_append, List.filter_cons_of_neg (by simp [hdropped]), hfront, hback]

/-! ## Requests -/

theorem create_turnover (d : Directory) (tokens : Nat → String) (request : Room.Invite) :
    Turnover d (d.create tokens request).1.isOk (d.create tokens request).2 := by
  have hsilent := Room.establish_closings d.isTaken tokens d.maxAttempts (.ofInvite request)
  unfold create
  split
  · rename_i a tries room effects heq
    rw [heq] at hsilent
    obtain ⟨hfree, rfl⟩ := Room.establish_ok heq
    exact .gains _ a hfree rfl rfl rfl hsilent
  -- a room that finds no address ends unheld, and its end is not told as a deletion
  · rename_i e room effects heq
    rw [heq] at hsilent
    refine .keeps rfl ?_
    rw [Room.closings_append, hsilent]
    rfl

theorem invite_turnover (d : Directory) (tokens : Nat → String) (request : Room.Invite) :
    Turnover d (d.creates (.invite tokens request)) (d.invite tokens request).2 := by
  rw [creates_invite]
  by_cases hfactory : request.target.sameParty d.factory = true
  · rw [hfactory, Bool.true_and]
    unfold invite
    rw [if_pos hfactory]
    exact create_turnover d tokens request
  · rw [Bool.eq_false_iff.mpr hfactory, Bool.false_and]
    unfold invite
    rw [if_neg hfactory]
    dsimp only
    split
    · rename_i heq
      exact onFirst_turnover heq (Room.visits_join request)
    · rename_i heq
      exact onFirst_turnover heq (Room.visits_join request)
    · exact .keeps rfl rfl

/-- **One of three things.** A request that a sound directory serves keeps its
rooms, gains one that it creates, or loses one that it tells to be deleted. -/
theorem step_turnover (h : Sound d) (request : Request) :
    Turnover d (d.creates request) (d.step request).2 := by
  cases request with
  | invite tokens request => exact invite_turnover d tokens request
  | message message =>
      show Turnover d false (d.relay message).2
      unfold relay
      split
      · rename_i heq
        exact onFirst_turnover heq (Room.visits_relay message)
      · exact .keeps rfl rfl
  | sessionChanged session change =>
      show Turnover d false (d.sessionChanged session change)
      unfold sessionChanged
      split
      · rename_i heq
        exact onFirst_prune_turnover h heq
      · exact .keeps rfl rfl
  | addParticipant room participant =>
      show Turnover d false (d.addParticipant room participant).2
      unfold addParticipant
      split
      · rename_i heq
        exact onFirst_turnover heq (Room.visits_invite participant)
      · exact .keeps rfl rfl
  | removeParticipant room participant =>
      show Turnover d false (d.removeParticipant room participant).2
      unfold removeParticipant
      split
      · rename_i heq
        exact onFirst_prune_turnover h heq
      · exact .keeps rfl rfl

/-! ## What follows for the directory -/

theorem Sound.of_standings {d' : Directory} (h : Sound d)
    (hstandings : d'.rooms.map standing = d.rooms.map standing) : Sound d' where
  live := by
    intro room hroom
    have hmem : standing room ∈ d.rooms.map standing := by
      rw [← hstandings]
      exact List.mem_map_of_mem hroom
    obtain ⟨old, hold, heq⟩ := List.mem_map.mp hmem
    rw [standing, standing, Prod.mk.injEq] at heq
    rw [← heq.1, ← heq.2]
    exact h.live old hold
  apart := by
    have hapart : (d.rooms.map standing).Pairwise fun s t =>
        ∀ a b, s.2 = some a → t.2 = some b → a.sameParty b = false := by
      rw [List.pairwise_map]
      exact h.apart
    rw [← hstandings, List.pairwise_map] at hapart
    exact hapart

/-- Nobody held a free address, so a room there is apart from all others. -/
theorem apart_of_free {a : Address} (hfree : d.isTaken a = false)
    (hconference : room.conference? = some a) : ∀ old ∈ d.rooms, Apart old room := by
  intro old hold b c hb hc
  rw [hconference, Option.some.injEq] at hc
  subst hc
  rw [← Bool.not_eq_true]
  intro hsame
  exact List.any_eq_false.mp hfree old hold (isAt_iff.mpr ⟨b, hb, hsame⟩)

namespace Turnover

variable {created : Bool} {out : Directory × List Room.Effect}

theorem sound (h : Sound d) (ht : Turnover d created out) : Sound out.1 := by
  cases ht with
  | keeps standings _ => exact h.of_standings standings
  | gains room a free state conference rooms _ =>
      constructor
      · intro r hr
        rw [rooms, List.mem_append, List.mem_singleton] at hr
        rcases hr with hr | rfl
        · exact h.live r hr
        · exact ⟨state, by simp [conference]⟩
      · rw [rooms, List.pairwise_append]
        refine ⟨h.apart, List.pairwise_singleton Apart room, ?_⟩
        intro old hold new hnew
        rw [List.mem_singleton.mp hnew]
        exact apart_of_free free conference old hold
  | loses front back room before after _ =>
      have hsub : out.1.rooms.Sublist d.rooms := by
        rw [before, after]
        exact (List.Sublist.refl front).append (List.sublist_cons_self room back)
      exact ⟨fun r hr => h.live r (hsub.subset hr), h.apart.sublist hsub⟩

/-- The rooms held and the deletions told are as many as the rooms held before
and the rooms created. -/
theorem length_eq (ht : Turnover d created out) :
    out.1.rooms.length + (closings out.2).length = d.rooms.length + created.toNat := by
  cases ht with
  | keeps standings silent =>
      have hlength := congrArg List.length standings
      rw [List.length_map, List.length_map] at hlength
      rw [hlength, silent]
      rfl
  | gains room a _ _ _ rooms silent =>
      rw [rooms, silent, List.length_append]
      rfl
  | loses front back room before after once =>
      rw [before, after, once]
      simp only [List.length_append, List.length_cons, List.length_nil, Bool.toNat_false]
      omega

end Turnover

/-! ## Rooms that are gone -/

/-- Some room has the address of this one. -/
def holds (d : Directory) (room : Room) : Bool :=
  d.rooms.any fun r => r.conference? = room.conference?

/-- Rooms of a directory whose address is gone in another. -/
def dropped (before after : Directory) : List Room :=
  before.rooms.filter fun room => !after.holds room

theorem holds_iff : d.holds room = true ↔ ∃ r ∈ d.rooms, r.conference? = room.conference? := by
  unfold holds
  rw [List.any_eq_true]
  simp only [decide_eq_true_eq]

theorem dropped_eq_nil {after : Directory} (h : ∀ room ∈ d.rooms, after.holds room = true) :
    dropped d after = [] := by
  unfold dropped
  rw [List.filter_eq_nil_iff]
  intro room hroom
  rw [h room hroom]
  simp

/-- The room between is gone, as no other has its address. -/
theorem dropped_eq_singleton (h : Sound d) {after : Directory} {front back : List Room}
    (hbefore : d.rooms = front ++ room :: back) (hafter : after.rooms = front ++ back) :
    dropped d after = [room] := by
  have hkept : ∀ r ∈ front ++ back, ¬(!after.holds r) = true := by
    intro r hr
    rw [holds_iff.mpr ⟨r, hafter ▸ hr, rfl⟩]
    simp
  have hgone : (!after.holds room) = true := by
    rw [Bool.not_eq_true', ← Bool.not_eq_true, holds_iff, hafter]
    rintro ⟨r, hr, heq⟩
    have hroom : room ∈ d.rooms := by
      rw [hbefore]
      exact List.mem_append_right front List.mem_cons_self
    obtain ⟨a, ha⟩ := Option.isSome_iff_exists.mp (h.live room hroom).2
    -- being apart is symmetric, so the room may be moved to the front
    have hpairwise : (room :: (front ++ back)).Pairwise Apart :=
      List.Pairwise.perm (hbefore ▸ h.apart) List.perm_middle fun h => Std.Symm.symm _ _ h
    have hsame := List.rel_of_pairwise_cons hpairwise hr a a ha (heq.trans ha)
    rw [Address.sameParty_refl] at hsame
    exact Bool.noConfusion hsame
  unfold dropped
  rw [hbefore, List.filter_append, List.filter_cons, if_pos hgone]
  rw [List.filter_eq_nil_iff.mpr fun r hr => hkept r (List.mem_append_left back hr)]
  rw [List.filter_eq_nil_iff.mpr fun r hr => hkept r (List.mem_append_right front hr)]
  rfl

/-- The deletions told are those of the rooms that are gone, each told once. -/
theorem Turnover.closings_eq {created : Bool} {out : Directory × List Room.Effect} (h : Sound d)
    (ht : Turnover d created out) :
    closings out.2 = (dropped d out.1).map (·.conference?) := by
  cases ht with
  | keeps standings silent =>
      rw [silent, dropped_eq_nil]
      · rfl
      · intro room hroom
        have hmem : standing room ∈ out.1.rooms.map standing := by
          rw [standings]
          exact List.mem_map_of_mem hroom
        obtain ⟨r, hr, heq⟩ := List.mem_map.mp hmem
        exact holds_iff.mpr ⟨r, hr, congrArg Prod.snd heq⟩
  | gains room a _ _ _ rooms silent =>
      rw [silent, dropped_eq_nil]
      · rfl
      · intro r hr
        rw [holds_iff, rooms]
        exact ⟨r, List.mem_append_left _ hr, rfl⟩
  | loses front back room before after once =>
      rw [once, dropped_eq_singleton h before after]
      rfl

end Switchboard.Directory
