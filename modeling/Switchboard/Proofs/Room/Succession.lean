import Switchboard.Proofs.Room.Life
import Switchboard.Proofs.Room.Log
import Switchboard.Proofs.Room.Session

/-!
# Succession

Participants stand in the order of their latest arrival. The administrator is
the one who came first, then whoever the role was handed to; when the
administrator goes, the participant who stands first of those that remain takes
over, and nobody if nobody remains. Nothing else moves the role.
-/

namespace Switchboard.Room

/-! ## The order of arrival -/

def Event.arrival? : Event → Option Address
  | .participantAdded a => some a
  | _ => none

def Event.departs : Event → Address → Bool
  | .participantRemoved a, b => a = b
  | _, _ => false

/-- The event tells that this participant has come or gone. -/
def Event.moves : Event → Address → Bool
  | .participantAdded a, b | .participantRemoved a, b => a = b
  | _, _ => false

/-- A replica lists who has come and has not gone since. -/
theorem addresses_replay {start : Replica} (h : start.members = []) (log : List Notice) :
    (start.replay log).members.map Prod.fst =
      Latest.kept Event.arrival? Event.departs (log.map (·.event)) := by
  induction log using List.reverseRecOn with
  | nil =>
      rw [Replica.replay, List.foldl_nil, h]
      rfl
  | append_singleton log notice ih =>
      have hreplay : start.replay (log ++ [notice]) = (start.replay log).apply notice.event :=
        Replica.replay_append start log [notice]
      rw [hreplay, List.map_append, List.map_singleton, Latest.kept_snoc, ← ih]
      generalize (start.replay log) = m
      cases notice.event with
      | participantAdded a => simp [Replica.apply, Event.arrival?, Event.departs]
      | participantRemoved a =>
          have hkept : (fun b => !(Event.participantRemoved a).departs b) =
              fun b => decide (b ≠ a) := by
            funext b
            simp [Event.departs, eq_comm]
          have hnobody : (Event.participantRemoved a).arrival?.toList = [] := rfl
          rw [hkept, hnobody, List.append_nil, List.filter_map]
          rfl
      | adminChanged a isAdmin =>
          have hsame : (m.apply (.adminChanged a isAdmin)).members.map Prod.fst =
              m.members.map Prod.fst := by
            unfold Replica.apply
            rw [List.map_map]
            apply List.map_congr_left
            intro member _
            rw [Function.comp_apply]
            split
            · rename_i heq
              exact heq.symm
            · rfl
          rw [hsame]
          simp [Event.arrival?, Event.departs]
      | _ => simp [Replica.apply, Event.arrival?, Event.departs]

namespace Roster

variable {r r' : Roster} {a : Address} {p : Participant}

def addresses (r : Roster) : List Address :=
  r.active.map (·.address)

theorem Orderly.nodup_addresses (h : Orderly r) : r.addresses.Nodup := by
  have hdistinct := distinct_iff_map.mp h.distinct
  apply hdistinct.imp
  rintro a b hab rfl
  rw [Address.sameParty_refl] at hab
  cases hab

end Roster

/-- Participants stand in the order of their latest arrival. -/
theorem run_addresses (invite : Invite) (ops : List Operation) :
    ((ofInvite invite).run ops).1.roster.addresses =
      Latest.kept Event.arrival? Event.moves
        ((notices ((ofInvite invite).run ops).2).map (·.event)) := by
  have hstart : ({ subject := invite.subject?.getD "" } : Replica).members = [] := rfl
  have hkept := addresses_replay hstart (notices ((ofInvite invite).run ops).2)
  rw [(run_told invite ops).replayed, replica, List.map_map] at hkept
  have haddresses : ((ofInvite invite).run ops).1.roster.addresses =
      Latest.kept Event.arrival? Event.departs
        ((notices ((ofInvite invite).run ops).2).map (·.event)) := hkept
  have hnodup := (run_orderly invite ops).nodup_addresses
  rw [haddresses] at hnodup ⊢
  have hmoves : Event.moves =
      fun event a => decide (event.arrival? = some a) || event.departs a := by
    funext event a
    cases event <;> simp [Event.moves, Event.arrival?, Event.departs]
  rw [hmoves, Latest.kept_eq_of_nodup _ _ hnodup]

/-! ## The administrator -/

namespace Roster

variable {r r' : Roster} {a : Address} {p : Participant}

def administrator? (r : Roster) : Option Address :=
  r.admins.head?.map (·.address)

theorem administrator?_eq_find? (r : Roster) :
    r.administrator? = ((r.active.map Participant.member).find? (·.2)).map Prod.fst := by
  unfold administrator? admins
  rw [List.head?_filter, List.find?_map, Option.map_map]
  rfl

/-- Newcomers stand behind the administrator. -/
theorem administrator?_of_append {new : List (Address × Bool)}
    (hmembers : r'.active.map Participant.member = r.active.map Participant.member ++ new)
    (h : r.administrator? = some a) : r'.administrator? = some a := by
  rw [administrator?_eq_find?] at h ⊢
  rw [hmembers, List.find?_append]
  cases hfind : (r.active.map Participant.member).find? (·.2) with
  | none =>
      rw [hfind] at h
      cases h
  | some member =>
      rw [hfind] at h
      exact h

theorem exists_of_administrator? (h : r.administrator? = some a) :
    ∃ p ∈ r.active, p.isAdmin = true ∧ p.address = a := by
  obtain ⟨p, hp, hpa⟩ := Option.map_eq_some_iff.mp h
  obtain ⟨hmem, hadmin⟩ := List.mem_filter.mp (List.mem_of_head? hp)
  exact ⟨p, hmem, hadmin, hpa⟩

/-- Once there is an administrator there is no other. -/
theorem Orderly.admins_eq (h : Orderly r) (hp : p ∈ r.active) (hadmin : p.isAdmin = true) :
    r.admins = [p] := by
  obtain ⟨q, hq⟩ := List.length_eq_one_iff.mp (h.oneAdmin (List.ne_nil_of_mem hp))
  have hmem : p ∈ r.admins := List.mem_filter.mpr ⟨hp, hadmin⟩
  rw [hq, List.mem_singleton] at hmem
  rw [hq, hmem]

theorem Orderly.exists_admin (h : Orderly r) (hsome : r.active ≠ []) :
    ∃ p ∈ r.active, p.isAdmin = true ∧ r.administrator? = some p.address := by
  obtain ⟨p, hp⟩ := List.length_eq_one_iff.mp (h.oneAdmin hsome)
  have hmem : p ∈ r.admins := by rw [hp]; exact List.mem_singleton.mpr rfl
  obtain ⟨hactive, hadmin⟩ := List.mem_filter.mp hmem
  refine ⟨p, hactive, hadmin, ?_⟩
  rw [administrator?, hp]
  rfl

theorem settled_of_admin (hp : p ∈ r.active) (hadmin : p.isAdmin = true) : r.settled = r := by
  have hany : r.active.any (·.isAdmin) = true := List.any_eq_true.mpr ⟨p, hp, hadmin⟩
  unfold settled
  split
  · rfl
  · exact if_pos hany

/-- Without an administrator the first participant becomes one. -/
theorem administrator?_settled (h : r.admins = []) :
    r.settled.administrator? = r.settled.addresses.head? := by
  have hany : ¬r.active.any (·.isAdmin) = true := by
    rw [List.any_eq_true]
    rintro ⟨p, hp, hadmin⟩
    exact List.filter_eq_nil_iff.mp h p hp hadmin
  unfold settled
  split
  · rename_i hnil
    rw [administrator?, h, addresses, hnil]
    rfl
  · rw [if_neg hany]
    rfl

/-- The role stays where it is unless the administrator goes; then it passes to
the first of those who remain. -/
theorem Orderly.succession (h : Orderly r) (hfind : r.find? a = some p) :
    (r.remove a).settled.addresses = r.addresses.filter (· ≠ p.address) ∧
      (r.remove a).settled.administrator? =
        if p.isAdmin then (r.remove a).settled.addresses.head? else r.administrator? := by
  have hremaining : (r.remove a).active = r.active.filter fun q => !q.address.sameParty a := by
    rw [remove_active, eraseP_eq_filter h.distinct]
  have hadmins : (r.remove a).admins = r.admins.filter fun q => !q.address.sameParty a := by
    rw [admins, hremaining, List.filter_comm]
    rfl
  have hparty : p.address.sameParty a = true := by
    have hfound := List.find?_some hfind
    exact hfound
  constructor
  · show (r.remove a).settled.active.map (·.address) = _
    rw [settled_addresses, hremaining, addresses, List.filter_map]
    congr 1
    apply List.filter_congr
    intro q hq
    have hiff := sameParty_iff_of_find? h.distinct hfind hq
    simp [← hiff]
  · cases hadmin : p.isAdmin with
    | true =>
        have hnone : (r.remove a).admins = [] := by
          rw [hadmins, h.admins_eq (mem_of_find? hfind) hadmin,
            List.filter_cons_of_neg (by simp [hparty])]
          rfl
        exact administrator?_settled hnone
    | false =>
        obtain ⟨q, hq, hqadmin, -⟩ := h.exists_admin (List.ne_nil_of_mem (mem_of_find? hfind))
        have hother : q.address.sameParty a = false := by
          by_contra hqa
          have hmem : q ∈ r.active.filter fun q => q.address.sameParty a :=
            List.mem_filter.mpr ⟨hq, by simpa using hqa⟩
          have hone := filter_eq_find? (a := a) h.distinct
          rw [← find?, hfind, Option.toList_some] at hone
          rw [hone, List.mem_singleton] at hmem
          rw [hmem, hadmin] at hqadmin
          cases hqadmin
        have hstays : q ∈ (r.remove a).active := by
          rw [hremaining]
          exact List.mem_filter.mpr ⟨hq, by simp [hother]⟩
        rw [settled_of_admin hstays hqadmin, administrator?, administrator?, hadmins,
          h.admins_eq hq hqadmin, List.filter_cons_of_pos (by simp [hother])]
        rfl

end Roster

variable {r : Room} {out : Room × List Effect} {a b : Address} {p : Participant} {op : Operation}

/-! ## Operations and the administrator -/

/-- A visit lets nobody in but behind those who are there, and takes nobody's
role. -/
theorem Visit.members (h : Visit r out) :
    ∃ new, out.1.roster.active.map Participant.member =
      r.roster.active.map Participant.member ++ new := by
  have hadd : ∀ p, ∃ new, (r.roster.add p).active.map Participant.member =
      r.roster.active.map Participant.member ++ new := by
    intro p
    unfold Roster.add
    split
    · exact ⟨[], (List.append_nil _).symm⟩
    · exact ⟨[p.member], List.map_append⟩
  cases h with
  | emit effect _ => exact ⟨[], (List.append_nil _).symm⟩
  | tell recipient => exact ⟨[], (List.append_nil _).symm⟩
  | setSubject subject =>
      rw [setSubject_roster]
      exact ⟨[], (List.append_nil _).symm⟩
  | found a _ _ => exact hadd _
  | welcome a _ _ _ => exact hadd _
  | connect request _ _ =>
      have hsame : (Room.connect request r).1.roster.active.map Participant.member =
          r.roster.active.map Participant.member := Roster.map_update fun _ => rfl
      exact ⟨[], hsame.trans (List.append_nil _).symm⟩

theorem administrator?_of_visits (h : Chain Visit r out)
    (ha : r.roster.administrator? = some a) : out.1.roster.administrator? = some a := by
  refine h.lift (P := fun r out =>
    r.roster.administrator? = some a → out.1.roster.administrator? = some a) ?_ ?_ ?_ ha
  · intro r ha
    exact ha
  · intro r first last hfirst hlast ha
    exact hlast (hfirst ha)
  · intro r out hvisit ha
    obtain ⟨new, hmembers⟩ := hvisit.members
    exact Roster.administrator?_of_append hmembers ha

/-- The first to come is administrator, whatever its request asks for besides. -/
theorem administrator?_join_first {request : Invite} (hempty : r.roster.active = [])
    (hok : (r.join request).1 = .ok ()) :
    (r.join request).2.1.roster.administrator? = some request.sender := by
  have hjoin := join_cases r request
  generalize r.join request = out at hok hjoin ⊢
  cases hjoin with
  | notLive _ => cases hok
  | stranger _ hsome _ => exact absurd hempty hsome
  | @accepted conference p hlive hfind =>
      have hlive' : (comeFirst request.sender r).1.liveAddress?.isSome := by simp [hlive]
      have hvisits := visits_receive request conference p.isAdmin _ hlive' (by simp [hfind])
      have hfirst : (comeFirst request.sender r).1.roster.administrator? = some request.sender := by
        unfold comeFirst
        rw [if_pos hempty, enter_roster, Roster.administrator?, Roster.admins,
          Roster.add_active_of_none (by simp [Roster.find?, hempty]), hempty]
        rfl
      have hlater := administrator?_of_visits hvisits hfirst
      exact hlater

/-- The administrator has gone, all others stay, and the first of them is
administrator now. -/
structure Succeeded (a : Address) (before after : Roster) : Prop where
  others : after.addresses = before.addresses.filter (· ≠ a)
  first : after.administrator? = after.addresses.head?

theorem depart_administrator (h : r.roster.Orderly) (ha : r.roster.administrator? = some a)
    (hfind : r.roster.find? b = some p) :
    (depart b r).1.roster.administrator? = some a ∨
      (r.admin? = some p ∧ p.address = a ∧ Succeeded a r.roster (depart b r).1.roster) := by
  obtain ⟨hothers, hadministrator⟩ := h.succession hfind
  rw [depart_roster (by simp [hfind])]
  cases hadmin : p.isAdmin with
  | false =>
      rw [hadmin] at hadministrator
      exact .inl (hadministrator.trans ha)
  | true =>
      rw [hadmin] at hadministrator
      have hadmins := h.admins_eq (Roster.mem_of_find? hfind) hadmin
      have hp : p.address = a := by
        rw [Roster.administrator?, hadmins] at ha
        exact Option.some.inj ha
      refine .inr ⟨?_, hp, ?_, hadministrator⟩
      · rw [admin?, hadmins]
        rfl
      · rw [hothers, hp]

/-- The operation takes the administrator out: it is asked to leave, or its
session has ended. -/
def Dismisses (r : Room) (op : Operation) : Prop :=
  ∃ p, r.admin? = some p ∧ ((∃ b, op = .expel b ∧ p.address.sameParty b = true) ∨
    ∃ session, op = .sessionChanged session .ended ∧ p.session? = some session)

theorem expel_cases (b : Address) (r : Room) :
    (r.expel b).2.1 = r ∨ (r.roster.find? b).isSome ∧ (r.expel b).2.1 = (depart b r).1 := by
  unfold expel
  split
  · exact .inl rfl
  · split
    · exact .inl rfl
    · rename_i p hfind
      exact .inr ⟨by simp [hfind], rfl⟩

/-- With an administrator, an operation hands the role over, leaves it where it
is, or takes the administrator out. -/
theorem step_administrator (h : r.roster.Orderly) (ha : r.roster.administrator? = some a)
    (op : Operation) :
    (∃ b, op = .transferAdmin b ∧ (r.transferAdmin b).1 = .ok ()) ∨
      (r.step op).2.1.roster.administrator? = some a ∨
      (Dismisses r op ∧ Succeeded a r.roster (r.step op).2.1.roster) := by
  have hvisits : ∀ {out : Room × List Effect}, Chain Visit r out →
      out.1.roster.administrator? = some a := fun hvisits => administrator?_of_visits hvisits ha
  cases op with
  | establish taken tokens attempts =>
      right; left
      rw [step_establish, establish_roster]
      exact ha
  | join request => exact .inr (.inl (hvisits (visits_join request r)))
  | comply request => exact .inr (.inl (hvisits (visits_comply request r)))
  | invite b => exact .inr (.inl (hvisits (visits_invite b r)))
  | inviteAll as => exact .inr (.inl (hvisits (visits_inviteAll as r)))
  | setSubject subject => exact .inr (.inl (hvisits (.single (.setSubject r subject))))
  | dispatch sender content => exact .inr (.inl (hvisits (visits_dispatch sender content r)))
  | relay message => exact .inr (.inl (hvisits (visits_relay message r)))
  | transferAdmin b =>
      cases hresult : (r.transferAdmin b).1 with
      | ok _ => exact .inl ⟨b, rfl, hresult⟩
      | error e =>
          right; left
          show (r.transferAdmin b).2.1.roster.administrator? = some a
          rw [transferAdmin_of_error hresult]
          exact ha
  | expel b =>
      right
      show (r.expel b).2.1.roster.administrator? = some a ∨
        (Dismisses r (.expel b) ∧ Succeeded a r.roster (r.expel b).2.1.roster)
      rcases expel_cases b r with hsame | ⟨hfound, hdepart⟩
      · rw [hsame]
        exact .inl ha
      · obtain ⟨p, hp⟩ := Option.isSome_iff_exists.mp hfound
        have hparty : p.address.sameParty b = true := by
          have hmatch := List.find?_some hp
          exact hmatch
        rw [hdepart]
        refine (depart_administrator h ha hp).imp_right ?_
        rintro ⟨hadmin, -, hsucceeded⟩
        exact ⟨⟨p, hadmin, .inl ⟨b, rfl, hparty⟩⟩, hsucceeded⟩
  | sessionChanged session change =>
      right
      cases change with
      | connected => exact .inl ha
      | updated request =>
          left
          show (sessionChanged session (.updated request) r).1.roster.administrator? = some a
          unfold sessionChanged
          cases r.roster.bySession? session with
          | none => exact ha
          | some p =>
              dsimp only
              split
              · exact hvisits (visits_comply request r)
              · exact ha
      | ended =>
          show (sessionChanged session .ended r).1.roster.administrator? = some a ∨
            (Dismisses r (.sessionChanged session .ended) ∧
              Succeeded a r.roster (sessionChanged session .ended r).1.roster)
          rw [ended_roster]
          cases hfind : r.roster.bySession? session with
          | none => exact .inl ha
          | some p =>
              have hp : r.roster.find? p.address = some p :=
                Roster.find?_of_mem h.distinct (Roster.bySession?_mem hfind)
              have hsession : p.session? = some session := by
                simpa using List.find?_some hfind
              -- forgetting a removed participant changes nothing for the active ones
              refine (depart_administrator h ha hp).imp_right ?_
              rintro ⟨hadmin, -, hsucceeded⟩
              exact ⟨⟨p, hadmin, .inr ⟨session, rfl, hsession⟩⟩,
                ⟨hsucceeded.others, hsucceeded.first⟩⟩

theorem transferAdmin_addresses (h : r.roster.Orderly) (b : Address) :
    (r.transferAdmin b).2.1.roster.addresses = r.roster.addresses := by
  by_cases hfind : (r.roster.find? b).isSome
  · rw [Roster.addresses, transferAdmin_active h.distinct hfind, List.map_map]
    rfl
  · rw [Option.not_isSome_iff_eq_none] at hfind
    unfold transferAdmin
    rw [hfind]

/-- After a transfer the role is with the participant of this party. -/
theorem transferAdmin_administrator (h : r.roster.Orderly)
    (hafter : (r.transferAdmin b).2.1.roster.Orderly) (hok : (r.transferAdmin b).1 = .ok ()) :
    ∃ p, (r.transferAdmin b).2.1.admin? = some p ∧ p.address.sameParty b = true ∧
      ∀ q ∈ (r.transferAdmin b).2.1.roster.active, q.address.sameParty b = true → q = p := by
  have hfind : (r.roster.find? b).isSome := by
    by_contra hnone
    rw [Option.not_isSome_iff_eq_none] at hnone
    unfold transferAdmin at hok
    rw [hnone] at hok
    cases hok
  have hactive := transferAdmin_active h.distinct hfind
  have hrole : ∀ q ∈ (r.transferAdmin b).2.1.roster.active,
      q.isAdmin = q.address.sameParty b := by
    rw [hactive]
    intro q hq
    obtain ⟨q, -, rfl⟩ := List.mem_map.mp hq
    rfl
  have hsome : (r.transferAdmin b).2.1.roster.active ≠ [] := by
    rw [hactive, Ne, List.map_eq_nil_iff]
    obtain ⟨p, hp⟩ := Option.isSome_iff_exists.mp hfind
    exact List.ne_nil_of_mem (Roster.mem_of_find? hp)
  obtain ⟨p, hp, hadmin, -⟩ := hafter.exists_admin hsome
  refine ⟨p, ?_, ?_, ?_⟩
  · rw [admin?, hafter.admins_eq hp hadmin]
    rfl
  · rw [← hrole p hp]
    exact hadmin
  · intro q hq hparty
    rw [← hrole q hq] at hparty
    have hone := hafter.admins_eq hq hparty
    rw [hafter.admins_eq hp hadmin] at hone
    exact (List.singleton_inj.mp hone).symm

/-- An administrator that is gone was taken out, and the role has passed on. -/
theorem administrator_passed_on (h : r.roster.Orderly) (ha : r.roster.administrator? = some a)
    (hgone : a ∉ (r.step op).2.1.roster.addresses) :
    Dismisses r op ∧ Succeeded a r.roster (r.step op).2.1.roster := by
  rcases step_administrator h ha op with ⟨b, rfl, -⟩ | hstays | hsucceeded
  · have hsame : (r.step (.transferAdmin b)).2.1.roster.addresses = r.roster.addresses :=
      transferAdmin_addresses h b
    obtain ⟨p, hp, -, rfl⟩ := Roster.exists_of_administrator? ha
    rw [hsame] at hgone
    exact absurd (List.mem_map_of_mem hp) hgone
  · obtain ⟨p, hp, -, rfl⟩ := Roster.exists_of_administrator? hstays
    exact absurd (List.mem_map_of_mem hp) hgone
  · exact hsucceeded

/-- An administrator that stays keeps the role unless it is handed over. -/
theorem administrator_stays (h : r.roster.Orderly) (hsome : r.roster.active ≠ [])
    (htransfer : ∀ b, op = .transferAdmin b → (r.transferAdmin b).1 ≠ .ok ())
    (hstays : ∀ a, r.roster.administrator? = some a → a ∈ (r.step op).2.1.roster.addresses) :
    (r.step op).2.1.roster.administrator? = r.roster.administrator? := by
  obtain ⟨p, -, -, ha⟩ := h.exists_admin hsome
  rcases step_administrator h ha op with ⟨b, hop, hok⟩ | hsame | ⟨-, hsucceeded⟩
  · exact absurd hok (htransfer b hop)
  · exact hsame.trans ha.symm
  · have hmem := hstays p.address ha
    rw [hsucceeded.others] at hmem
    simp at hmem

/-- Once the first has come and all have gone, nobody is let in again. -/
theorem nobody_returns (invite : Invite) (ops : List Operation)
    (hempty : ((ofInvite invite).run ops).1.roster.active = [])
    (hjoin : ∀ request, op = .join request →
      (((ofInvite invite).run ops).1.join request).1 = .ok () → Joined (ofInvite invite) ops) :
    (((ofInvite invite).run ops).1.step op).2.1.roster.active = [] := by
  apply step_active_of_nobody hempty
  intro request hop hok
  have hcreated := created_of_live (join_of_ok hok).1
  refine (run_active_ne_nil_iff invite ops).mpr ⟨hjoin request hop hok, ?_⟩ hempty
  simp [hcreated]

/-- **Succession.** After any history the participants stand in the order of
their latest arrival. Of the next operation: the first invitation accepted makes
its sender administrator; a transfer makes the participant of the party
administrator; an operation that takes the administrator out makes the first of
those who remain administrator, and nobody if nobody remains; and every other
operation leaves the role where it is. -/
theorem administrator_succession (invite : Invite) (ops : List Operation) :
    let start := ofInvite invite
    let room := (start.run ops).1
    room.roster.active.map (·.address) =
        Latest.kept Event.arrival? Event.moves ((notices (start.run ops).2).map (·.event)) ∧
      ∀ op,
        let after := (room.step op).2.1
        (∀ request, op = .join request → (room.join request).1 = .ok () → ¬Joined start ops →
          after.admin?.map (·.address) = some request.sender) ∧
        (∀ b, op = .transferAdmin b → (room.transferAdmin b).1 = .ok () →
          ∃ p, after.admin? = some p ∧ p.address.sameParty b = true ∧
            ∀ q ∈ after.roster.active, q.address.sameParty b = true → q = p) ∧
        (∀ a, room.admin?.map (·.address) = some a → a ∉ after.roster.active.map (·.address) →
          Dismisses room op ∧
            after.roster.active.map (·.address) =
              (room.roster.active.map (·.address)).filter (· ≠ a) ∧
            after.admin?.map (·.address) = (after.roster.active.map (·.address)).head?) ∧
        ((∀ request, op = .join request → (room.join request).1 = .ok () → Joined start ops) →
          (∀ b, op = .transferAdmin b → (room.transferAdmin b).1 ≠ .ok ()) →
          (∀ a, room.admin?.map (·.address) = some a →
            a ∈ after.roster.active.map (·.address)) →
          after.admin?.map (·.address) = room.admin?.map (·.address)) := by
  intro start room
  have horderly : room.roster.Orderly := run_orderly invite ops
  refine ⟨run_addresses invite ops, ?_⟩
  intro op after
  refine ⟨?_, ?_, ?_, ?_⟩
  · rintro request rfl hok hfirst
    apply administrator?_join_first _ hok
    by_contra hsome
    exact hfirst ((run_active_ne_nil_iff invite ops).mp hsome).1
  · rintro b rfl hok
    have hafter := run_orderly invite (ops ++ [.transferAdmin b])
    rw [run_snoc] at hafter
    exact transferAdmin_administrator horderly hafter hok
  · intro a ha hgone
    obtain ⟨hdismisses, hsucceeded⟩ := administrator_passed_on horderly ha hgone
    exact ⟨hdismisses, hsucceeded.others, hsucceeded.first⟩
  · intro hjoin htransfer hstays
    by_cases hempty : room.roster.active = []
    · have hempty' : after.roster.active = [] := nobody_returns invite ops hempty hjoin
      simp [admin?, Roster.admins, hempty, hempty']
    · exact administrator_stays horderly hempty htransfer hstays

/-- The role does not stay with the last participant: Alice is asked to leave a
room of her own, nobody remains to take over, and there is no administrator any
more. -/
theorem role_ends_with_last :
    let party (name : String) : Address := { user? := some name, host := "localhost" }
    let call : Invite :=
      { session := ⟨"1"⟩, sender := party "alice", target := party "room"
        contact := party "alice" }
    let room := ((ofInvite call).run [.establish (fun _ => false) (fun _ => "a") 1, .join call]).1
    let after := (room.step (.expel (party "alice"))).2.1
    room.admin?.map (·.address) = some (party "alice") ∧
      ¬(after.roster.active ≠ [] ∧ party "alice" ∉ after.roster.active.map (·.address)) ∧
      after.admin?.map (·.address) ≠ room.admin?.map (·.address) := by
  decide +kernel

end Switchboard.Room
