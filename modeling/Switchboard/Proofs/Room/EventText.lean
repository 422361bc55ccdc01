import Mathlib.Data.List.Perm.Basic
import Switchboard.Room.EventJson
import Switchboard.Proofs.Json.ReadBack

/-!
# Events read back

An event is written as a record of its tag and the values of its kind. A reader
looks up the names of that kind and nothing else, so neither the order of the
members nor members with other names make a difference.
-/

namespace Switchboard

namespace Json

variable {members written extra : List (String × Json)} {name : String}

theorem single?_congr (h : (valuesOf members name).Perm (valuesOf written name)) :
    single? members name = single? written name := by
  unfold single?
  generalize valuesOf members name = found at h ⊢
  match valuesOf written name, h with
  | [], h => rw [h.eq_nil]
  | [value], h => rw [List.perm_singleton.mp h]
  | _ :: _ :: _, h =>
      match found, h.length_eq with
      | _ :: _ :: _, _ => rfl

theorem valuesOf_append (a b : List (String × Json)) (name : String) :
    valuesOf (a ++ b) name = valuesOf a name ++ valuesOf b name := by
  rw [valuesOf, List.filter_append, List.map_append]
  rfl

/-- A member is found wherever it stands, whatever other names there are. -/
theorem single?_of_perm (h : members.Perm (written ++ extra)) (hextra : ∀ m ∈ extra, m.1 ≠ name) :
    single? members name = single? written name := by
  apply single?_congr
  have hnone : valuesOf extra name = [] := by
    unfold valuesOf
    rw [List.filter_eq_nil_iff.mpr, List.map_nil]
    intro m hm
    simpa using hextra m hm
  have hvalues : (valuesOf members name).Perm (valuesOf (written ++ extra) name) :=
    (h.filter _).map _
  rwa [valuesOf_append, hnone, List.append_nil] at hvalues

end Json

namespace Room

variable {members written extra : List (String × Json)} {e : Event} {topic : Topic}

/-- Only the names of the topic are looked up. -/
theorem Topic.read_congr
    (h : ∀ name ∈ topic.memberNames, Json.single? members name = Json.single? written name) :
    topic.read members = topic.read written := by
  cases topic with
  | deleted => rfl
  | adminChanged =>
      have hparticipant := h "participant" (by decide)
      have hadmin := h "is_admin" (by decide)
      simp only [Topic.read, addressOf, hparticipant, hadmin]
  | participantAdded | participantRemoved | subjectChanged | stateChanged | messageDispatched =>
      have hname := h _ List.mem_cons_self
      simp only [Topic.read, addressOf, stateOf, hname]

namespace Event

/-- The address an event is about. -/
def address? : Event → Option Address
  | participantAdded a | participantRemoved a | adminChanged a _ | messageDispatched a => some a
  | subjectChanged _ | stateChanged _ | deleted => none

theorem ofJson?_of_kind (hkind : Json.single? members "kind" = some (.text topic.tag)) :
    ofJson? (.record members) = topic.read members := by
  simp only [ofJson?, hkind, Option.bind_some, Json.text?, Topic.ofTag?_tag]

/-- Members in another order, and members with other names, make no difference. -/
theorem ofJson?_of_perm (hkind : Json.single? written "kind" = some (.text topic.tag))
    (hperm : members.Perm (written ++ extra))
    (hextra : ∀ m ∈ extra, m.1 ≠ "kind" ∧ m.1 ∉ topic.memberNames) :
    ofJson? (.record members) = ofJson? (.record written) := by
  have hsame : Json.single? members "kind" = Json.single? written "kind" :=
    Json.single?_of_perm hperm fun m hm => (hextra m hm).1
  rw [ofJson?_of_kind (hsame.trans hkind), ofJson?_of_kind hkind]
  apply Topic.read_congr
  intro name hname
  apply Json.single?_of_perm hperm
  rintro m hm rfl
  exact (hextra m hm).2 hname

theorem plain_toJson {k : Nat} (e : Event) : Json.Plain (k + 1) e.toJson := by
  cases e <;> refine .record ?_ <;> simp [Json.Plain.text, Json.Plain.bool]

theorem addressOf_text {name : String} {a : Address}
    (hsingle : Json.single? members name = some (.text a.text)) (h : Address.parse a.text = .ok a) :
    addressOf members name = some a := by
  rw [addressOf, hsingle, Option.bind_some, Json.text?, Option.bind_some, h]
  rfl

theorem ofJson?_toJson (h : ∀ a ∈ e.address?, Address.parse a.text = .ok a) :
    ofJson? e.toJson = some e := by
  obtain ⟨written, hwritten⟩ : ∃ written, e.toJson = .record written := ⟨_, rfl⟩
  have hkind : Json.single? written "kind" = some (.text e.topic.tag) := by
    obtain rfl := Json.record.inj hwritten
    cases e <;> rfl
  rw [hwritten, ofJson?_of_kind hkind]
  obtain rfl := Json.record.inj hwritten
  cases e with
  | participantAdded a =>
      have ha : addressOf [("kind", .text "participant_added"), ("participant", .text a.text)]
          "participant" = some a := addressOf_text rfl (h a rfl)
      exact congrArg (Option.map participantAdded) ha
  | participantRemoved a =>
      have ha : addressOf [("kind", .text "participant_removed"), ("participant", .text a.text)]
          "participant" = some a := addressOf_text rfl (h a rfl)
      exact congrArg (Option.map participantRemoved) ha
  | adminChanged a isAdmin =>
      have ha : addressOf [("kind", .text "participant_admin_status_changed"),
          ("participant", .text a.text), ("is_admin", .bool isAdmin)] "participant" = some a :=
        addressOf_text rfl (h a rfl)
      exact congrArg (Option.bind · fun a => some (adminChanged a isAdmin)) ha
  | messageDispatched a =>
      have ha : addressOf [("kind", .text "message_dispatched"), ("recipient", .text a.text)]
          "recipient" = some a := addressOf_text rfl (h a rfl)
      exact congrArg (Option.map messageDispatched) ha
  | stateChanged state => cases state <;> rfl
  | subjectChanged subject => rfl
  | deleted => rfl

/-- **An event is read back, in whatever order and with whatever else it is
written.** -/
theorem written_event_read_back (e : Event) (h : ∀ a ∈ e.address?, Address.parse a.text = .ok a) :
    parse? e.text = some e ∧ (parse? e.text).map Event.topic = some e.topic ∧
      ∃ written, e.toJson = .record written ∧ ∀ members extra,
        members.Perm (written ++ extra) →
        (∀ m ∈ extra, m.1 ≠ "kind" ∧ m.1 ∉ e.topic.memberNames) →
        ∀ s, Json.parse? s = some (.record members) → parse? s = some e := by
  have hread : parse? e.text = some e := by
    have hplain : Json.Plain Json.maxOpen e.toJson := plain_toJson e
    rw [parse?, text, Json.parse?_render hplain]
    exact ofJson?_toJson h
  refine ⟨hread, congrArg (Option.map Event.topic) hread, _, rfl, ?_⟩
  intro members extra hperm hextra s hs
  rw [parse?, hs, Option.bind_some, ofJson?_of_perm _ hperm hextra]
  · exact ofJson?_toJson h
  · cases e <;> rfl

/-- The tag stands last, a name of another kind first, and the display name has
a quote, a backslash and a control character. -/
theorem written_event_read_back_reversed :
    parse? (Json.render (.record [("recipient", .list []), ("is_admin", .bool true),
        ("participant", .text "\"A\"\\\x01\" <sip:a@h>"),
        ("kind", .text "participant_admin_status_changed")])) =
      some (adminChanged
        { displayName? := some "A\"\\\x01", user? := some "a", host := "h" } true) := by
  have hread : ∀ a ∈ (adminChanged
      { displayName? := some "A\"\\\x01", user? := some "a", host := "h" } true).address?,
      Address.parse a.text = .ok a := by
    rintro a ha
    obtain rfl := Option.some.inj ha
    decide +kernel
  obtain ⟨written, hwritten, hanyway⟩ := (written_event_read_back _ hread).2.2
  obtain rfl := Json.record.inj hwritten
  refine hanyway _ [("recipient", .list [])] (List.reverse_perm _) (by decide) _
    (Json.parse?_render ?_)
  refine .record ?_
  simp [Json.Plain.text, Json.Plain.bool, Json.Plain.list]

end Event

end Room

end Switchboard
