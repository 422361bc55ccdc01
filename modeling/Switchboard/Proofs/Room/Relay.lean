import Switchboard.Proofs.Content
import Switchboard.Proofs.Room.Stage

/-!
# Messages to all others

A message that a participant sends in the common format goes to everybody else
in the order of the roster, one copy each, and every copy is told before the
next goes out. Everybody else is everybody but one, as no party is listed
twice, however the sender spells its address. Any other message goes nowhere.
-/

namespace Switchboard.Room

variable {r : Room} {conference a : Address} {p : Participant} {message : IncomingMessage}

/-! ## Copies -/

/-- The copy for one participant, and what is told of it. -/
def copyFor (conference : Address) (content : Content) (p : Participant) : Effect × Event :=
  (.send { sender := conference, target := p.contact, content, applyModifiers := false },
    .messageDispatched p.address)

/-- Each copy changes nothing but the number of the last notice. -/
theorem deliveries_apply (conference : Address) (content : Content) (recipients : List Participant)
    (r : Room) :
    Change.sequence (recipients.map (deliver conference content)) r =
      ({ r with sequence := r.sequence + recipients.length },
        announced r.conference? r.sequence (recipients.map (copyFor conference content))) := by
  induction recipients generalizing r with
  | nil => rfl
  | cons p rest ih =>
      have hfirst : deliver conference content p r = ({ r with sequence := r.sequence + 1 },
          announced r.conference? r.sequence [copyFor conference content p]) := rfl
      rw [List.map_cons, sequence_cons, andThen_apply, hfirst, ih, List.length_cons, List.map_cons]
      rw [Nat.add_right_comm, Nat.add_assoc]
      rfl

/-! ## Relaying -/

/-- The message comes from somebody who takes part, in the common format. -/
structure Relayable (r : Room) (message : IncomingMessage) : Prop where
  sender : ∃ p ∈ r.roster.active, message.sender.sameParty p.address = true
  format : message.content.mediaType.Spells "message/cpim"

theorem relay_of_not_relayable (h : ¬Relayable r message) :
    r.relay message = (.notAcceptable, r, []) := by
  unfold relay
  cases hfind : r.roster.find? message.sender with
  | none => rfl
  | some p =>
      have hsender : ∃ p ∈ r.roster.active, message.sender.sameParty p.address = true := by
        have hp : p.address.sameParty message.sender = true := by
          simpa using List.find?_some hfind
        rw [Address.sameParty_comm] at hp
        exact ⟨p, Roster.mem_of_find? hfind, hp⟩
      have hformat : message.content.mediaType.same .cpim = false := by
        rw [← Bool.not_eq_true, MediaType.same_cpim_iff]
        exact fun hformat => h ⟨hsender, hformat⟩
      rw [hformat]
      rfl

theorem Relayable.find?_isSome (h : Relayable r message) :
    (r.roster.find? message.sender).isSome := by
  obtain ⟨p, hp, hsender⟩ := h.sender
  rw [Address.sameParty_comm] at hsender
  exact Roster.find?_isSome_iff.mpr ⟨p, hp, hsender⟩

theorem relay_of_relayable (h : Relayable r message)
    (hconference : r.conference? = some conference) :
    let recipients := r.roster.active.filter fun p => !message.sender.sameParty p.address
    r.relay message = (.none, { r with sequence := r.sequence + recipients.length },
      announced (some conference) r.sequence
        (recipients.map (copyFor conference message.content))) := by
  intro recipients
  obtain ⟨p, hsender⟩ := Option.isSome_iff_exists.mp h.find?_isSome
  have hformat := MediaType.same_cpim_iff.mpr h.format
  unfold relay dispatch
  rw [if_neg (by simp [hsender]), if_neg (by simp [hformat]), hconference]
  dsimp only
  rw [deliveries_apply, hconference]

/-- **A message reaches all others.** Whatever has happened to the room before,
a message is relayed exactly if it comes from somebody who takes part and is in
the common format. The sender has one entry in the roster, and everybody before
and after it gets one copy, in order, unchanged and from the room's own
address; of the room only the number of the last notice changes. -/
theorem message_reaches_others (invite : Invite) (ops : List Operation)
    (message : IncomingMessage) :
    let room := ((ofInvite invite).run ops).1
    (¬Relayable room message → room.relay message = (.notAcceptable, room, [])) ∧
      (Relayable room message → ∃ conference before own after,
        room.conference? = some conference ∧ room.roster.active = before ++ own :: after ∧
        message.sender.sameParty own.address = true ∧
        (∀ p ∈ before ++ after, message.sender.sameParty p.address = false) ∧
        room.relay message =
          (.none, { room with sequence := room.sequence + (room.roster.active.length - 1) },
            announced (some conference) room.sequence ((before ++ after).map fun p =>
              (.send { sender := conference, target := p.contact, content := message.content
                       applyModifiers := false },
                .messageDispatched p.address)))) := by
  intro room
  refine ⟨relay_of_not_relayable, ?_⟩
  intro h
  obtain ⟨own, hfind⟩ := Option.isSome_iff_exists.mp h.find?_isSome
  have hsome : room.roster.active ≠ [] := List.ne_nil_of_mem (Roster.mem_of_find? hfind)
  obtain ⟨conference, hconference, -⟩ := (run_stage invite ops).live hsome
  obtain ⟨before, after, hactive, hown, hothers⟩ :=
    Roster.split_of_find? (run_orderly invite ops).distinct hfind
  have hrecipients : room.roster.active.filter (fun p => !message.sender.sameParty p.address) =
      before ++ after := by
    rw [hactive, List.filter_append, List.filter_cons_of_neg, ← List.filter_append,
      List.filter_eq_self]
    · intro q hq
      rw [hothers q hq]
      rfl
    · simp [hown]
  have hlength : room.roster.active.length - 1 = (before ++ after).length := by
    rw [hactive, List.length_append, List.length_append, List.length_cons]
    rfl
  refine ⟨conference, before, own, after, hconference, hactive, hown, hothers, ?_⟩
  rw [hlength, relay_of_relayable h hconference, hrecipients]
  rfl

end Switchboard.Room
