import Switchboard.Proofs.Directory.Isolation
import Switchboard.Proofs.Latest

/-!
# Routing to a new room

A room is made at an address of its own, and whoever calls there joins it for
as long as it lives. Calls are first compared with the factory, however, and
no room is asked whether its address is that of the factory: it is exactly if
the random token makes up the user that the factory has. Such a room is out of
reach, and calls to it make further rooms.
-/

namespace Switchboard.Directory

open Room (closings)

variable {d : Directory} {turns more : List Turn} {turn : Turn} {a : Address}
  {tokens : Nat → String} {request : Room.Invite}

/-- Some room of the directory has exactly this address. -/
def Hosts (d : Directory) (a : Address) : Prop :=
  ∃ room ∈ d.rooms, room.conference? = some a

/-! ## The address of a new room -/

/-- A room is made at the first free candidate. -/
theorem candidate_of_create (h : (d.create tokens request).1 = .ok a) :
    ∃ i < d.maxAttempts, a = request.target.identity.withUser (some ("chatroom-" ++ tokens i)) ∧
      Hosts (d.create tokens request).2.1 a := by
  cases hfree : (Room.ofInvite request).freeCandidate? d.isTaken tokens d.maxAttempts with
  | none =>
      rw [create_of_taken hfree] at h
      exact absurd h (by simp)
  | some i =>
      obtain ⟨-, -, hlt, -⟩ := Room.firstFree_eq_some hfree
      rw [create_of_free hfree] at h ⊢
      rw [Except.ok.injEq] at h
      subst h
      refine ⟨i, by omega, rfl, ?_⟩
      exact ⟨_, List.mem_append_right _ (List.mem_singleton_self _), rfl⟩

/-- Two addresses that differ in the user only. -/
theorem sameParty_withUser {target factory : Address} (h : target.sameParty factory = true)
    (user? : Option String) :
    (target.identity.withUser user?).sameParty factory = true ↔ factory.user? = user? := by
  simp only [Address.sameParty, Bool.and_eq_true, decide_eq_true_eq] at h
  obtain ⟨⟨⟨hscheme, -⟩, hhost⟩, hport⟩ := h
  simp only [Address.sameParty, Address.withUser, Address.identity, hscheme, hhost, hport,
    Bool.and_eq_true, decide_eq_true_eq, and_true, true_and]
  exact eq_comm

/-! ## As long as a room lives -/

theorem factory_step (h : Sound d) (request : Request) :
    (d.step request).2.1.factory = d.factory := by
  by_cases hfactory : request.isForFactory d.factory = true
  · obtain ⟨new, -, hafter⟩ := step_of_factory hfactory
    rw [hafter]
  · cases hroom : d.addressee? request with
    | some room =>
        rw [step_of_addressee h hroom]
        rfl
    | none =>
        unfold addressee? at hroom
        rw [if_neg hfactory, List.find?_eq_none] at hroom
        rw [step_of_nobody (by simpa using hfactory) (by simpa using hroom)]

/-- A room goes only when its deletion is told. -/
theorem Hosts.step (h : Sound d) (hhosts : Hosts d a) {request : Request}
    (hsilent : some a ∉ closings (d.step request).2.2) : Hosts (d.step request).2.1 a := by
  obtain ⟨room, hroom, ha⟩ := hhosts
  -- a room that is gone is among those that the step drops, and their closings are told
  by_contra hgone
  apply hsilent
  rw [(step_turnover h request).closings_eq h]
  refine List.mem_map.mpr ⟨room, ?_, ha⟩
  have hnot : (d.step request).2.1.holds room = false := by
    rw [← Bool.not_eq_true, holds_iff]
    rintro ⟨r, hr, hconference⟩
    exact hgone ⟨r, hr, hconference.trans ha⟩
  exact List.mem_filter.mpr ⟨hroom, by simp [hnot]⟩

/-- From a turn on, the factory stays where it is, and a room as well until its
deletion is told. -/
theorem Served.hosts (h : Served d (turns ++ turn :: more)) (hhosts : Hosts turn.after a)
    (hlives : some a ∉ closings (more.flatMap Turn.effects)) :
    d.factory = turn.before.factory ∧ Hosts d a := by
  -- on the history, with the turn in question the last one or any turn before it
  generalize hall : turns ++ turn :: more = all at h
  induction h generalizing more with
  | opened _ => exact absurd hall (by simp)
  | reordered _ hd ih =>
      obtain ⟨hfactory, room, hroom, ha⟩ := ih hlives hall
      exact ⟨hd.factory.trans hfactory, room, hd.rooms.mem_iff.mp hroom, ha⟩
  | @step d earlier h request ih =>
      rcases Latest.snoc_eq_split_iff.mp hall.symm with ⟨rfl, -, rfl⟩ | ⟨between, rfl, hearlier⟩
      · exact ⟨factory_step h.sound request, hhosts⟩
      · rw [List.flatMap_append, Room.closings_append, List.mem_append, not_or,
          List.flatMap_singleton] at hlives
        obtain ⟨hfactory, hhosts⟩ := ih hlives.1 hearlier.symm
        exact ⟨(factory_step h.sound request).trans hfactory, hhosts.step h.sound hlives.2⟩

/-! ## Calls to a room -/

/-- Whoever calls the address of a room joins it, and nothing else happens. -/
structure Joins (d : Directory) (room : Room) (a : Address) (tokens : Nat → String)
    (call : Room.Invite) : Prop where
  addressee : d.addressee? (.invite tokens call) = some room
  nothingMade : d.creates (.invite tokens call) = false
  outcome : d.invite tokens call =
    (((room.join call).1.mapError Error.room).map fun _ => a,
      { d with rooms := replaceFirst (isAt call.target) (room.join call).2.1 d.rooms },
      (room.join call).2.2)

theorem Sound.joins (h : Sound d) {room : Room} (hroom : room ∈ d.rooms)
    (ha : room.conference? = some a) (hfactory : a.sameParty d.factory = false)
    {call : Room.Invite} (hcall : call.target.sameParty a = true) :
    Joins d room a tokens call := by
  -- calls are compared with the factory first, and only then with the rooms
  rw [Address.sameParty_comm] at hcall
  have hfar : call.target.sameParty d.factory = false := by
    rw [← Bool.not_eq_true] at hfactory ⊢
    exact fun hsame => hfactory (Address.sameParty_trans hcall hsame)
  have hfind : d.find? call.target = some room :=
    h.find?_eq_some_iff.mpr ⟨hroom, isAt_iff.mpr ⟨a, ha, hcall⟩⟩
  constructor
  · show (if call.target.sameParty d.factory then none else d.find? call.target) = some room
    rw [hfar, hfind]
    rfl
  · rw [creates_invite, hfar, Bool.false_and]
  · exact invite_of_room hfar hfind ha

/-- **A new room is reached at its address.** The address of a room that is made
is the identity of the one that was called, as the call spells it, with a random
token in its user. It is that of the factory exactly if the factory has this
very user. If it has not, and as long as no deletion of the room is told, the
room is there, and whoever calls its address joins it: no further room is made. -/
theorem new_room_reached {d' : Directory}
    (h : Served d' (turns ++ ⟨d, .invite tokens request⟩ :: more))
    (hfactory : request.target.sameParty d.factory = true)
    (hok : (d.invite tokens request).1 = .ok a) :
    (∃ i < d.maxAttempts,
        a = request.target.identity.withUser (some ("chatroom-" ++ tokens i))) ∧
      (a.sameParty d.factory = true ↔ d.factory.user? = a.user?) ∧
      (d.factory.user? ≠ a.user? → some a ∉ closings (more.flatMap Turn.effects) →
        ∃ room ∈ d'.rooms, room.conference? = some a ∧
          ∀ (tokens : Nat → String) (call : Room.Invite), call.target.sameParty a = true →
            Joins d' room a tokens call) := by
  have hmade : d.invite tokens request = d.create tokens request := invite_of_factory hfactory
  rw [hmade] at hok
  obtain ⟨i, hi, haddress, hhosts⟩ := candidate_of_create hok
  have hsame : a.sameParty d.factory = true ↔ d.factory.user? = a.user? := by
    rw [haddress]
    exact sameParty_withUser hfactory _
  refine ⟨⟨i, hi, haddress⟩, hsame, ?_⟩
  intro hne hlives
  have hafter : Hosts (⟨d, .invite tokens request⟩ : Turn).after a := by
    show Hosts (d.invite tokens request).2.1 a
    rw [hmade]
    exact hhosts
  obtain ⟨hstays, room, hroom, ha⟩ := h.hosts hafter hlives
  refine ⟨room, hroom, ha, ?_⟩
  intro tokens call hcall
  refine h.sound.joins hroom ha ?_ hcall
  rw [hstays, ← Bool.not_eq_true]
  exact mt hsame.mp hne

/-- Alice has a room made, joins it and calls again. -/
theorem new_room_reached_by_creator :
    let factory : Address := { user? := some "factory", host := "localhost" }
    let alice : Address := { user? := some "alice", host := "localhost" }
    let address : Address := { user? := some "chatroom-a", host := "localhost" }
    let call (target : Address) : Room.Invite :=
      { session := ⟨"1"⟩, sender := alice, target, contact := alice }
    let opened : Directory := { factory, maxAttempts := 2 }
    let make : Turn := ⟨opened, .invite (fun _ => "a") (call factory)⟩
    let join : Turn := ⟨make.after, .invite (fun _ => "b") (call address)⟩
    Served join.after [make, join] ∧ ∃ room ∈ join.after.rooms,
      room.conference? = some address ∧
        Joins join.after room address (fun _ => "c") (call address) := by
  intro factory alice address call opened make join
  have hparse : Directory.parse "sip:factory@localhost" 2 = .ok opened := by decide +kernel
  have hserved : Served join.after ([] ++ make :: [join]) :=
    ((Served.opened hparse).step make.request).step join.request
  have hok : (opened.invite (fun _ => "a") (call factory)).1 = .ok address := by decide +kernel
  have hlives : some address ∉ closings ([join].flatMap Turn.effects) := by decide +kernel
  obtain ⟨-, -, hreached⟩ := new_room_reached hserved (Address.sameParty_refl factory) hok
  obtain ⟨room, hroom, ha, hjoins⟩ := hreached (by decide) hlives
  exact ⟨hserved, room, hroom, ha, hjoins _ (call address) (Address.sameParty_refl address)⟩

/-- The token of a new room makes up the user of the factory: the room is given
the address of the factory, and the next call there makes another room. -/
theorem new_room_at_factory :
    let token := "k3Xq9TzB1m"
    let factory : Address := { user? := some ("chatroom-" ++ token), host := "localhost" }
    let alice : Address := { user? := some "alice", host := "localhost" }
    let call : Room.Invite :=
      { session := ⟨"1"⟩, sender := alice, target := factory, contact := alice }
    let opened : Directory := { factory }
    let made := opened.invite (fun _ => token) call
    Directory.parse "sip:chatroom-k3Xq9TzB1m@localhost" 100 = .ok opened ∧
      made.1 = .ok factory ∧
      made.2.1.creates (.invite (fun _ => "Zc71pWq0Lr") call) = true ∧
      (made.2.1.invite (fun _ => "Zc71pWq0Lr") call).2.1.rooms.length = 2 := by
  decide +kernel

end Switchboard.Directory
