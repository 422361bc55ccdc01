import Switchboard.Proofs.ResourceList.Fault
import Switchboard.Proofs.Room.Refusal
import Switchboard.Proofs.Room.Stage

/-!
# Inviting a list of parties

A list is gone through in order, and each party is compared with all who take
part by then. So the list may name a party more than once, in any spelling, and
may name parties that take part already: each new one is invited once and added
at its first place in the list. Where one party can be invited all can, so a
list is refused as a whole or not at all, and a list that cannot be read adds
nobody.
-/

namespace Switchboard.Room

variable {r : Room} {conference a b : Address} {known : List Address} {roster : Roster}

/-! ## Adding guests -/

/-- The room with these parties added as guests, each addition told. -/
def welcomed (r : Room) (as : List Address) : Room :=
  { r with
    roster := { r.roster with active := r.roster.active ++ as.map Participant.ofAddress }
    sequence := r.sequence + as.length }

theorem welcomed_nil (r : Room) : r.welcomed [] = r := by
  unfold welcomed
  rw [List.map_nil, List.append_nil]
  rfl

theorem welcomed_welcomed (r : Room) (first later : List Address) :
    (r.welcomed first).welcomed later = r.welcomed (first ++ later) := by
  unfold welcomed
  simp only [List.map_append, List.append_assoc, List.length_append, Nat.add_assoc]

theorem welcomed_ne_nil (as : List Address) (hsome : r.roster.active ≠ []) :
    (r.welcomed as).roster.active ≠ [] :=
  List.append_ne_nil_of_left_ne_nil hsome _

/-- Whoever was there before is found first. -/
theorem find?_welcomed (r : Room) (as : List Address) (a : Address) :
    (r.welcomed as).roster.find? a =
      (r.roster.find? a).or
        ((as.map Participant.ofAddress).find? fun p => p.address.sameParty a) :=
  List.find?_append

theorem enter_ofAddress (hnew : r.roster.find? a = none) :
    enter (.ofAddress a) r =
      (r.welcomed [a], [.notify ⟨r.conference?, r.sequence + 1, .participantAdded a⟩]) := by
  have hadd : r.roster.add (.ofAddress a) =
      { r.roster with active := r.roster.active ++ [.ofAddress a] } := by
    have hnone : r.roster.find? (Participant.ofAddress a).address = none := hnew
    rw [Roster.add, hnone]
    rfl
  rw [enter, hadd]
  rfl

/-! ## Newcomers -/

/-- The addresses in the list whose party is neither known nor named before. -/
def newcomers (known as : List Address) : List Address :=
  (as.zipIdx.filter fun entry => !(known ++ as.take entry.2).any entry.1.sameParty).map Prod.fst

theorem newcomers_singleton (known : List Address) (a : Address) :
    newcomers known [a] = if known.any a.sameParty then [] else [a] := by
  unfold newcomers
  by_cases hknown : known.any a.sameParty = true <;> simp [hknown]

/-- Whoever is named is known from there on. -/
theorem newcomers_cons (known rest : List Address) (a : Address) :
    newcomers known (a :: rest) = newcomers known [a] ++ newcomers (known ++ [a]) rest := by
  -- one place further on, the address in front is among those named before
  have hlater : (fun entry : Address × Nat =>
        !(known ++ (a :: rest).take entry.2).any entry.1.sameParty) ∘ Prod.map id (· + 1) =
      fun entry => !(known ++ [a] ++ rest.take entry.2).any entry.1.sameParty := by
    funext entry
    simp
  have hrest : ((rest.zipIdx.filter fun entry =>
        !(known ++ [a] ++ rest.take entry.2).any entry.1.sameParty).map
          (Prod.map id (· + 1))).map Prod.fst = newcomers (known ++ [a]) rest := by
    rw [List.map_map]
    rfl
  rw [newcomers_singleton]
  unfold newcomers at hrest ⊢
  rw [List.zipIdx_cons', List.filter_cons, List.filter_map, hlater, ← hrest]
  by_cases hknown : known.any a.sameParty = true <;> simp [hknown]

/-! ## The parties known -/

/-- The parties known are those that take part. -/
def Covers (known : List Address) (roster : Roster) : Prop :=
  ∀ b, known.any b.sameParty = (roster.find? b).isSome

theorem covers_addresses (roster : Roster) : Covers (roster.active.map (·.address)) roster := by
  intro b
  rw [Bool.eq_iff_iff, Roster.find?_isSome_iff]
  simp [Address.sameParty_comm b]

/-- Once a party has been named it is known and takes part, however it was
spelled. -/
theorem Covers.named (h : Covers known r.roster) (a : Address) :
    Covers (known ++ [a]) (r.welcomed (newcomers known [a])).roster := by
  intro b
  rw [newcomers_singleton, List.any_append, List.any_cons, List.any_nil, Bool.or_false]
  by_cases hknown : known.any a.sameParty = true
  · obtain ⟨c, hc, hac⟩ := List.any_eq_true.mp hknown
    rw [if_pos hknown, welcomed_nil, ← h b, Bool.or_eq_left_iff_imp]
    intro hba
    exact List.any_eq_true.mpr ⟨c, hc, Address.sameParty_trans hba hac⟩
  · have hone : (Participant.ofAddress a).address = a := rfl
    rw [if_neg hknown, find?_welcomed, List.map_singleton, List.find?_singleton, hone,
      Option.isSome_or, ← h b, Address.sameParty_comm b a]
    cases a.sameParty b <;> rfl

theorem Covers.welcomed (h : Covers known r.roster) (as : List Address) :
    Covers (known ++ as) (r.welcomed (newcomers known as)).roster := by
  induction as generalizing r known with
  | nil =>
      rw [List.append_nil, show newcomers known [] = [] from rfl, welcomed_nil]
      exact h
  | cons a rest ih =>
      have hrest := ih (h.named a)
      rw [welcomed_welcomed, ← newcomers_cons, List.append_assoc] at hrest
      exact hrest

/-- A list names no newcomer where all whom it names are known. -/
theorem newcomers_eq_nil {as : List Address} (h : ∀ a ∈ as, known.any a.sameParty = true) :
    newcomers known as = [] := by
  have hnone : as.zipIdx.filter
      (fun entry => !(known ++ as.take entry.2).any entry.1.sameParty) = [] := by
    rw [List.filter_eq_nil_iff]
    intro entry hentry
    simp [h entry.1 (List.fst_mem_of_mem_zipIdx hentry)]
  rw [newcomers, hnone, List.map_nil]

/-! ## Inviting a list -/

/-- The request to a party to join, and what is told of it. -/
def requestTo (conference a : Address) : Effect × Event :=
  (.refer a (referTo conference false), .participantAdded a)

/-- A party is invited if it is a newcomer. -/
theorem invite_apply (hlive : r.liveAddress? = some conference) (hsome : r.roster.active ≠ [])
    (hknown : Covers known r.roster) (a : Address) :
    r.invite a =
      (.ok (), r.welcomed (newcomers known [a]),
        announced r.conference? r.sequence ((newcomers known [a]).map (requestTo conference))) := by
  have hfind := hknown a
  rw [newcomers_singleton]
  unfold invite
  rw [hlive]
  dsimp only
  rw [if_neg hsome, ← hfind]
  by_cases hnew : known.any a.sameParty = true
  · rw [if_pos hnew, if_pos hnew, welcomed_nil]
    rfl
  · have hnobody : r.roster.find? a = none := by
      rw [hfind, Bool.not_eq_true, Option.isSome_eq_false_iff, Option.isNone_iff_eq_none] at hnew
      exact hnew
    rw [if_neg hnew, if_neg hnew, andThen_apply, emit_fst, enter_ofAddress hnobody]
    rfl

/-- The parties are taken one after another, and whoever takes part or was
named before is known by then. -/
theorem inviteAll_apply (hlive : r.liveAddress? = some conference)
    (hsome : r.roster.active ≠ []) (hknown : Covers known r.roster) (as : List Address) :
    inviteAll as r =
      (.ok (), r.welcomed (newcomers known as),
        announced r.conference? r.sequence ((newcomers known as).map (requestTo conference))) := by
  induction as generalizing r known with
  | nil =>
      rw [show newcomers known [] = [] from rfl, welcomed_nil]
      rfl
  | cons a rest ih =>
      have hlive' : (r.welcomed (newcomers known [a])).liveAddress? = some conference := hlive
      rw [inviteAll, invite_apply hlive hsome hknown a]
      dsimp only
      rw [ih hlive' (welcomed_ne_nil _ hsome) (hknown.named a), welcomed_welcomed,
        newcomers_cons known rest a, List.map_append, announced_append, List.length_map]
      rfl

/-- Where nobody can be invited the first party of a list is refused. -/
theorem inviteAll_refused {as : List Address} (h : ¬CanInvite r) (hne : as ≠ []) :
    inviteAll as r = (.error (.invalidState r.state), r, []) := by
  cases as with
  | nil => exact absurd rfl hne
  | cons a rest => rw [inviteAll, invite_of_not_canInvite h]

/-! ## The address of a room -/

/-- The address of a room comes from its search, and carries nothing besides the
party. -/
theorem kept_bareAddress : Kept fun r log =>
    Stage r (toldStates log) ∧ ∀ a, r.conference? = some a → a.identity = a where
  stage := And.left
  tick := by
    intro r out log h hr
    refine ⟨h.stage hr.1, ?_⟩
    cases h with
    | signal effect _ => exact hr.2
    | unseen _ _ hconference =>
        rw [hconference]
        exact hr.2
    | @tell r' event _ _ _ hconference =>
        show ∀ a, r'.conference? = some a → a.identity = a
        rw [hconference]
        exact hr.2
  search := by
    intro r log taken tokens attempts hstate hr
    refine ⟨establish_stage taken tokens attempts hstate hr.1, ?_⟩
    cases hfree : r.freeCandidate? taken tokens attempts with
    | none =>
        rw [establish_of_taken hstate hfree]
        exact hr.2
    | some i =>
        rw [establish_of_free hstate hfree]
        rintro a ⟨⟩
        rfl

theorem run_bareAddress {invite : Invite} {ops : List Operation}
    (h : ((ofInvite invite).run ops).1.conference? = some a) : a.identity = a :=
  (kept_bareAddress.run ⟨.fresh rfl rfl rfl, by simp [ofInvite]⟩ ops).2 a h

/-! ## Requests with a list -/

/-- The change of the subject that a request asks for. -/
def setRequested (request : Invite) : Change :=
  match request.subject? with
  | some subject => setSubject subject
  | none => Change.none

theorem comply_apply (request : Invite) (r : Room) :
    comply request r =
      ((inviteAll request.recipients (setRequested request r).1).2.1,
        (setRequested request r).2 ++
          (inviteAll request.recipients (setRequested request r).1).2.2) := rfl

theorem setRequested_roster (request : Invite) (r : Room) :
    (setRequested request r).1.roster = r.roster := by
  unfold setRequested
  cases request.subject? with
  | none => rfl
  | some subject => exact setSubject_roster subject r

theorem not_refer_setRequested (request : Invite) (r : Room) (target referTo : Address) :
    .refer target referTo ∉ (setRequested request r).2 := by
  unfold setRequested
  cases request.subject? with
  | none => simp [Change.none]
  | some subject =>
      show .refer target referTo ∉ (setSubject subject r).2
      unfold setSubject
      split <;> simp [notify]

/-- A request that names nobody is about the subject alone. -/
theorem comply_of_no_recipients {request : Invite} (h : request.recipients = []) (r : Room) :
    comply request r = setRequested request r := by
  rw [comply_apply, h]
  exact Prod.ext rfl (List.append_nil _)

theorem recipients_of_unreadable {request : Invite} {body : Content}
    (hbody : request.body? = some body) (h : ResourceList.parse? body.body = none) :
    request.recipients = [] := by
  unfold Invite.recipients
  rw [hbody]
  dsimp only
  rw [h]
  split <;> rfl

/-- **Newcomers are invited once.** Whatever has happened to the room before, a
list of parties is taken as a whole if somebody takes part, and refused as a
whole if nobody does. Whoever is neither a participant nor named earlier in the
list is asked to join and added as a guest, in the order of the list, and
nothing else happens. A list that cannot be read adds nobody and asks nobody,
wherever the fault is: what precedes it can be as good as it likes. -/
theorem newcomers_invited_once (invite : Invite) (ops : List Operation) :
    let room := ((ofInvite invite).run ops).1
    (∀ as, room.roster.active ≠ [] →
      let added := newcomers (room.roster.active.map (·.address)) as
      ∃ conference, room.conference? = some conference ∧ conference.uriParams = [] ∧
        inviteAll as room =
          (.ok (),
            { room with
              roster := { room.roster with
                active := room.roster.active ++ added.map fun a =>
                  { address := a, contact := a, isAdmin := false, session? := none } }
              sequence := room.sequence + added.length },
            announced (some conference) room.sequence
              (added.map fun a =>
                (.refer a { conference with params := [⟨"text", none⟩] }, .participantAdded a)))) ∧
      (∀ as, room.roster.active = [] → as ≠ [] →
        inviteAll as room = (.error (.invalidState room.state), room, [])) ∧
      (∀ request body, request.body? = some body → ResourceList.parse? body.body = none →
        (comply request room).1.roster = room.roster ∧
          ∀ target referTo, .refer target referTo ∉ (comply request room).2) ∧
      ∀ front rest entries, ResourceList.parse? front = some entries →
        (ResourceList.parse? (front ++ rest) = none ↔ ResourceList.FaultAfter front rest) := by
  intro room
  refine ⟨?_, ?_, ?_, ?_⟩
  · intro as hsome added
    obtain ⟨conference, hconference, hlive⟩ := (run_stage invite ops).live hsome
    have hbare : conference.identity = conference := run_bareAddress hconference
    have hparams : conference.params = [] := (congrArg Address.params hbare).symm
    have hreferTo : referTo conference false = { conference with params := [⟨"text", none⟩] } := by
      unfold referTo Address.setParam
      rw [hparams]
      rfl
    refine ⟨conference, hconference, (congrArg Address.uriParams hbare).symm, ?_⟩
    have happly := inviteAll_apply hlive hsome (covers_addresses room.roster) as
    rw [hconference] at happly
    rw [happly, ← hreferTo]
    rfl
  · intro as hempty hne
    exact inviteAll_refused (fun hcan => hcan.2 hempty) hne
  · intro request body hbody hfault
    rw [comply_of_no_recipients (recipients_of_unreadable hbody hfault)]
    exact ⟨setRequested_roster request room, not_refer_setRequested request room⟩
  · intro front rest entries hfront
    exact ResourceList.parse?_append_eq_none_iff hfront

end Switchboard.Room
