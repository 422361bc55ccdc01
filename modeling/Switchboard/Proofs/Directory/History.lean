import Switchboard.Proofs.Directory.Order
import Switchboard.Proofs.Directory.Turnover

/-!
# Histories of a directory

A directory is opened with the address of the factory and serves requests one
after another. Between two requests its rooms may come to stand in any order,
so nothing proved here rests on the order in which they were created.
-/

namespace Switchboard.Directory

open Room (closings)

/-- A request, and the directory that serves it. -/
structure Turn where
  before : Directory
  request : Request

namespace Turn

def after (turn : Turn) : Directory := (turn.before.step turn.request).2.1

def effects (turn : Turn) : List Room.Effect := (turn.before.step turn.request).2.2

/-- The turn creates a room. -/
def creates (turn : Turn) : Bool := turn.before.creates turn.request

/-- Rooms that the turn takes out of the directory. -/
def dropped (turn : Turn) : List Room := Directory.dropped turn.before turn.after

end Turn

/-- Directories that turns lead to, in any order of the rooms before each. -/
inductive Served : Directory → List Turn → Prop
  | opened {factoryUri : String} {maxAttempts : Nat} {d : Directory}
      (h : Directory.parse factoryUri maxAttempts = .ok d) : Served d []
  | reordered {d d' : Directory} {turns : List Turn} (h : Served d turns)
      (hd : Reordered d d') : Served d' turns
  | step {d : Directory} {turns : List Turn} (h : Served d turns) (request : Request) :
      Served (d.step request).2.1 (turns ++ [⟨d, request⟩])

variable {d : Directory} {turns : List Turn}

/-- Serving requests in order is one such history. -/
theorem Served.serve (h : Served d turns) (requests : List Request) :
    ∃ more, Served (d.serve requests).2.1 (turns ++ more) ∧ more.map Turn.request = requests ∧
      more.flatMap Turn.effects = (d.serve requests).2.2 := by
  induction requests generalizing d turns with
  | nil => exact ⟨[], by simpa using h, rfl, rfl⟩
  | cons request rest ih =>
      obtain ⟨more, hserved, hrequests, heffects⟩ := ih (h.step request)
      refine ⟨⟨d, request⟩ :: more, ?_, ?_, ?_⟩
      · rw [List.append_assoc] at hserved
        exact hserved
      · rw [List.map_cons, hrequests]
      · rw [List.flatMap_cons, heffects, serve_cons]
        rfl

theorem sound_of_parse {factoryUri : String} {maxAttempts : Nat}
    (h : Directory.parse factoryUri maxAttempts = .ok d) : Sound d ∧ d.rooms = [] := by
  unfold Directory.parse at h
  split at h
  · rw [Except.ok.injEq] at h
    subst h
    exact ⟨⟨by simp, List.Pairwise.nil⟩, rfl⟩
  · exact absurd h (by simp)

namespace Served

theorem sound (h : Served d turns) : Sound d := by
  induction h with
  | opened h => exact (sound_of_parse h).1
  | reordered _ hd ih => exact ih.reordered hd
  | step _ request ih => exact (step_turnover ih request).sound ih

theorem length_eq (h : Served d turns) :
    d.rooms.length + (closings (turns.flatMap Turn.effects)).length =
      turns.countP Turn.creates := by
  induction h with
  | opened h =>
      rw [(sound_of_parse h).2]
      rfl
  | reordered _ hd ih =>
      rw [← hd.rooms.length_eq]
      exact ih
  | @step d turns h request ih =>
      -- the counts grow by what this turn alone creates and tells
      have hturn := (step_turnover h.sound request).length_eq
      have hcreated : [(⟨d, request⟩ : Turn)].countP Turn.creates = (d.creates request).toNat := by
        rw [List.countP_singleton]
        unfold Turn.creates
        cases d.creates request <;> rfl
      have heffects : (⟨d, request⟩ : Turn).effects = (d.step request).2.2 := rfl
      rw [List.flatMap_append, List.flatMap_singleton, heffects, Room.closings_append,
        List.length_append, List.countP_append, hcreated, ← ih]
      omega

theorem closings_eq (h : Served d turns) :
    ∀ turn ∈ turns, closings turn.effects = turn.dropped.map (·.conference?) := by
  induction h with
  | opened _ => simp
  | reordered _ _ ih => exact ih
  | @step d turns h request ih =>
      intro turn hturn
      rcases List.mem_append.mp hturn with hturn | hturn
      · exact ih turn hturn
      · rw [List.mem_singleton.mp hturn]
        exact (step_turnover h.sound request).closings_eq h.sound

end Served

/-- **One room at an address, and none lost.** After any history all rooms are
created, no two of them are reached at addresses of the same party, and what
is asked of an address does not depend on their order. The rooms held are those
created less those told to be deleted, and each turn tells the deletion of
exactly the rooms it takes out. -/
theorem one_room_at_an_address (h : Served d turns) :
    (∀ room ∈ d.rooms, room.state = .created ∧ ∃ a, room.conference? = some a) ∧
      (d.rooms.Pairwise fun room other => ∀ a b, room.conference? = some a →
        other.conference? = some b → a.sameParty b = false) ∧
      (∀ a, (d.rooms.filter (isAt a)).length ≤ 1) ∧
      (∀ d', Reordered d d' → (∀ a, d'.find? a = d.find? a) ∧
        ∀ request, (∀ session change, request ≠ .sessionChanged session change) →
          Agree (d.step request) (d'.step request)) ∧
      d.rooms.length + (closings (turns.flatMap Turn.effects)).length =
        turns.countP Turn.creates ∧
      ∀ turn ∈ turns, closings turn.effects = turn.dropped.map (·.conference?) := by
  refine ⟨?_, h.sound.apart, h.sound.length_filter_isAt_le, ?_, h.length_eq, h.closings_eq⟩
  · intro room hroom
    obtain ⟨hstate, hconference⟩ := h.sound.live room hroom
    exact ⟨hstate, Option.isSome_iff_exists.mp hconference⟩
  · intro d' hd
    exact ⟨find?_reordered h.sound hd, fun request => step_reordered h.sound hd⟩

/-- Two rooms are created, the second after its first token is found taken;
the first room ends when its only participant is taken out. -/
theorem one_room_at_an_address_after_two :
    let factory : Address := { user? := some "factory", host := "localhost" }
    let alice : Address := { user? := some "alice", host := "localhost" }
    let room : Address := { user? := some "chatroom-a", host := "localhost" }
    let call (target : Address) : Request :=
      .invite (fun i => if i = 0 then "a" else "b")
        { session := ⟨"1"⟩, sender := alice, target, contact := alice }
    let requests := [call factory, call factory, call room, .removeParticipant room alice]
    ∃ d turns, Served d turns ∧ turns.map Turn.request = requests ∧ d.rooms.length = 1 ∧
      closings (turns.flatMap Turn.effects) = [some room] ∧ turns.countP Turn.creates = 2 := by
  intro factory alice room call requests
  let opened : Directory := { factory, maxAttempts := 2 }
  have hparse : Directory.parse "sip:factory@localhost" 2 = .ok opened := by decide +kernel
  have hrooms : (opened.serve requests).2.1.rooms.length = 1 := by decide +kernel
  have hclosings : closings (opened.serve requests).2.2 = [some room] := by decide +kernel
  obtain ⟨turns, hserved, hrequests, heffects⟩ := (Served.opened hparse).serve requests
  rw [List.nil_append] at hserved
  rw [← heffects] at hclosings
  obtain ⟨-, -, -, -, hcount, -⟩ := one_room_at_an_address hserved
  rw [hrooms, hclosings] at hcount
  exact ⟨_, turns, hserved, hrequests, hrooms, hclosings, hcount.symm⟩

end Switchboard.Directory
