import Mathlib.Data.List.Nodup
import Switchboard.Notifier
import Switchboard.Proofs.Latest

/-!
# Deliveries to listeners that edit

A listener may register and unregister others, and itself, while it is called.
The log of a session has every answer and every call, with the listeners that
were left by it. So it can be said of each moment, in the middle of a delivery
too, what was registered and what a number had to be.
-/

namespace Switchboard.Notifier

variable {α : Type}

/-! ## Sessions -/

inductive Happening (α : Type)
  | registered (id : Nat) (listener : α)
  | unregistered (id : Nat) (found : Bool)
  /-- A delivery starts. -/
  | started
  | called (id : Nat) (listener : α)

/-- A happening and the listeners it leaves. -/
structure Moment (α : Type) where
  happening : Happening α
  listeners : List (Nat × α)

structure Session (α : Type) where
  notifier : Notifier α := {}
  /-- Moments, oldest first. -/
  log : List (Moment α) := []

def answer (n : Notifier α) : Edit α → Happening α
  | .register listener => .registered (n.register listener).1 listener
  | .unregister id => .unregistered id (n.unregister id).1

/-- A listener that is called edits as it sees fit after all there was. -/
def Reaction (α : Type) : Type :=
  List (Moment α) → List (Edit α)

inductive Request (α : Type)
  | edit (e : Edit α)
  | notify (react : Reaction α)

namespace Session

def note (s : Session α) (happening : Happening α) (n : Notifier α) : Session α :=
  { notifier := n, log := s.log ++ [⟨happening, n.listeners⟩] }

def perform (s : Session α) (e : Edit α) : Session α :=
  s.note (s.notifier.answer e) (s.notifier.edit e)

def call (react : Reaction α) (s : Session α) (entry : Nat × α) : Session α :=
  let called := s.note (.called entry.1 entry.2) s.notifier
  (react called.log).foldl perform called

def serve (s : Session α) : Request α → Session α
  | .edit e => s.perform e
  | .notify react => s.notifier.notify (call react) (s.note .started s.notifier)

def run (requests : List (Request α)) : Session α :=
  requests.foldl serve {}

end Session

/-! ## What a log says -/

def Happening.brings : Happening α → Option (Nat × α)
  | .registered id listener => some (id, listener)
  | _ => none

def Happening.takes : Happening α → Nat × α → Bool
  | .unregistered id _, entry => entry.1 = id
  | _, _ => false

def Happening.called? : Happening α → Option (Nat × α)
  | .called id listener => some (id, listener)
  | _ => none

/-- All registrations, in order. -/
def given (log : List (Moment α)) : List (Nat × α) :=
  log.filterMap (·.happening.brings)

/-- The registrations that nothing has ended since, in order. -/
def standing (log : List (Moment α)) : List (Nat × α) :=
  Latest.kept (·.happening.brings) (·.happening.takes) log

/-- The calls made, in order. -/
def calls (log : List (Moment α)) : List (Nat × α) :=
  log.filterMap (·.happening.called?)

variable {log before after : List (Moment α)} {m : Moment α} {s : Session α} {id : Nat}
  {happening : Happening α} {listeners : List (Nat × α)} {n : Notifier α}

theorem given_snoc (log : List (Moment α)) (m : Moment α) :
    given (log ++ [m]) = given log ++ m.happening.brings.toList := by
  unfold given
  rw [List.filterMap_append, List.filterMap_eq_flatMap_toList _ [m], List.flatMap_singleton]

theorem standing_snoc (log : List (Moment α)) (m : Moment α) :
    standing (log ++ [m]) =
      (standing log).filter (!m.happening.takes ·) ++ m.happening.brings.toList :=
  Latest.kept_snoc _ _ log m

theorem standing_registered {listener : α} (h : m.happening = .registered id listener)
    (log : List (Moment α)) : standing (log ++ [m]) = standing log ++ [(id, listener)] := by
  rw [standing_snoc, h]
  exact congrArg (· ++ _) (List.filter_eq_self.mpr fun _ _ => rfl)

theorem standing_unregistered {found : Bool} (h : m.happening = .unregistered id found)
    (log : List (Moment α)) :
    standing (log ++ [m]) = (standing log).filter fun entry => entry.1 ≠ id := by
  rw [standing_snoc, h]
  simp [Happening.takes, Happening.brings]

/-- What neither registers nor unregisters leaves the same standing. -/
theorem standing_snoc_idle (hbrings : happening.brings = none)
    (htakes : ∀ entry, happening.takes entry = false) (log : List (Moment α)) :
    standing (log ++ [⟨happening, listeners⟩]) = standing log := by
  rw [standing_snoc]
  simp [hbrings, htakes]

theorem standing_sublist (log : List (Moment α)) : (standing log).Sublist (given log) :=
  Latest.kept_sublist _ _ log

/-! ## Faithful logs -/

/-- The moment's number or answer is the one that the log before it asks for,
and its listeners are those standing after it. -/
structure Faithful (before : List (Moment α)) (m : Moment α) : Prop where
  left : m.listeners = standing (before ++ [m])
  number : ∀ id listener, m.happening = .registered id listener →
    id = (given before).length % numbers
  found : ∀ id found, m.happening = .unregistered id found →
    (found = true ↔ id ∈ (standing before).map Prod.fst)

/-- Every moment of the log is faithful to what was before it. -/
def Trustworthy (log : List (Moment α)) : Prop :=
  ∀ before m after, log = before ++ m :: after → Faithful before m

theorem Trustworthy.earlier (h : Trustworthy (before ++ after)) : Trustworthy before := by
  rintro earlier m later rfl
  apply h earlier m (later ++ after)
  rw [List.append_assoc, List.cons_append]

namespace Session

/-- The log can be trusted, and the notifier is where it leads. -/
structure Sound (s : Session α) : Prop where
  listeners : s.notifier.listeners = standing s.log
  next : s.notifier.next = (given s.log).length % numbers
  trustworthy : Trustworthy s.log

theorem Sound.note (h : s.Sound) (hfaithful : Faithful s.log ⟨happening, n.listeners⟩)
    (hnext : n.next = (given (s.note happening n).log).length % numbers) :
    (s.note happening n).Sound := by
  refine ⟨hfaithful.left, hnext, ?_⟩
  intro before m after hlog
  rcases Latest.snoc_eq_split_iff.mp hlog with ⟨-, rfl, rfl⟩ | ⟨between, -, hlog⟩
  · exact hfaithful
  · exact h.trustworthy before m between hlog

/-- What only looks at the notifier keeps the session sound. -/
theorem Sound.note_idle (h : s.Sound) (hbrings : happening.brings = none)
    (htakes : ∀ entry, happening.takes entry = false)
    (hunregistered : ∀ id found, happening ≠ .unregistered id found) :
    (s.note happening s.notifier).Sound := by
  apply h.note
  · refine ⟨?_, ?_, ?_⟩
    · rw [standing_snoc_idle hbrings htakes]
      exact h.listeners
    · rintro id listener rfl
      cases hbrings
    · intro id found hhappening
      exact absurd hhappening (hunregistered id found)
  · rw [Session.note, given_snoc, hbrings, Option.toList_none, List.append_nil]
    exact h.next

theorem Sound.perform (h : s.Sound) (e : Edit α) : (s.perform e).Sound := by
  cases e with
  | register listener =>
      apply h.note
      · refine ⟨?_, ?_, ?_⟩
        · rw [standing_registered rfl, ← h.listeners]
          rfl
        · rintro id _ heq
          obtain ⟨rfl, -⟩ := Happening.registered.inj heq
          exact h.next
        · intro id found heq
          cases heq
      · rw [Session.note, given_snoc, List.length_append]
        simp [Notifier.edit, Notifier.answer, register, Happening.brings, h.next]
  | unregister id =>
      apply h.note
      · refine ⟨?_, ?_, ?_⟩
        · rw [standing_unregistered rfl, ← h.listeners]
          rfl
        · intro id listener heq
          cases heq
        · rintro id found heq
          obtain ⟨rfl, rfl⟩ := Happening.unregistered.inj heq
          simp [unregister, isRegistered, h.listeners]
      · rw [Session.note, given_snoc]
        simp [Notifier.edit, Notifier.answer, unregister, Happening.brings, h.next]

theorem Sound.call (h : s.Sound) (react : Reaction α) (entry : Nat × α) :
    (s.call react entry).Sound := by
  have hcalled : (s.note (.called entry.1 entry.2) s.notifier).Sound := by
    apply h.note_idle rfl
    · intro _
      rfl
    · intro id found heq
      cases heq
  exact List.foldlRecOn _ _ hcalled fun _ hs e _ => hs.perform e

theorem Sound.serve (h : s.Sound) (request : Request α) : (s.serve request).Sound := by
  cases request with
  | edit e => exact h.perform e
  | notify react =>
      have hstarted : (s.note .started s.notifier).Sound := by
        apply h.note_idle rfl
        · intro _
          rfl
        · intro id found heq
          cases heq
      exact List.foldlRecOn _ _ hstarted fun _ hs entry _ => hs.call react entry

theorem sound_run (requests : List (Request α)) : (run requests).Sound := by
  have hstart : ({} : Session α).Sound := by
    refine ⟨rfl, rfl, ?_⟩
    intro before m after hlog
    cases before <;> cases hlog
  exact List.foldlRecOn _ _ hstart fun _ hs request _ => hs.serve request

end Session

/-! ## Numbers -/

/-- Numbers are given in turn. -/
theorem numbers_given (h : Trustworthy log) :
    (given log).map Prod.fst = (List.range (given log).length).map (· % numbers) := by
  induction log using List.reverseRecOn with
  | nil => rfl
  | append_singleton log m ih =>
      have hlast : Faithful log m := h log m [] rfl
      have hearlier := ih h.earlier
      rw [given_snoc]
      cases hm : m.happening with
      | registered id listener =>
          obtain rfl := hlast.number id listener hm
          simp [Happening.brings, hearlier, List.range_succ]
      | unregistered id found => simpa [Happening.brings] using hearlier
      | started => simpa [Happening.brings] using hearlier
      | called id listener => simpa [Happening.brings] using hearlier

/-- Before all are used up, they are the first numbers. -/
theorem numbers_given_of_few (h : Trustworthy log) (hfew : (given log).length ≤ numbers) :
    (given log).map Prod.fst = List.range (given log).length := by
  rw [numbers_given h, List.map_congr_left, List.map_id]
  intro k hk
  exact Nat.mod_eq_of_lt (Nat.lt_of_lt_of_le (List.mem_range.mp hk) hfew)

theorem numbers_nodup (h : Trustworthy log) (hfew : (given log).length ≤ numbers) :
    ((given log).map Prod.fst).Nodup := by
  rw [numbers_given_of_few h hfew]
  exact List.nodup_range

theorem standing_nodup (h : Trustworthy log) (hfew : (given log).length ≤ numbers) :
    ((standing log).map Prod.fst).Nodup :=
  ((standing_sublist log).map _).nodup (numbers_nodup h hfew)

theorem Faithful.number_new {listener : α} (h : Faithful before m) (hbefore : Trustworthy before)
    (hm : m.happening = .registered id listener) (hfew : (given before).length < numbers) :
    id ∉ (given before).map Prod.fst := by
  rw [h.number id listener hm, Nat.mod_eq_of_lt hfew,
    numbers_given_of_few hbefore (Nat.le_of_lt hfew), List.mem_range]
  exact Nat.lt_irrefl _

/-! ## Registrations that end -/

/-- With different numbers, taking one out takes out one registration. -/
theorem filter_number (h : (listeners.map Prod.fst).Nodup) (hid : id ∈ listeners.map Prod.fst) :
    ∃ earlier listener later, listeners = earlier ++ (id, listener) :: later ∧
      listeners.filter (fun entry => entry.1 ≠ id) = earlier ++ later := by
  obtain ⟨⟨_, listener⟩, hmem, rfl⟩ := List.mem_map.mp hid
  obtain ⟨earlier, later, rfl⟩ := List.append_of_mem hmem
  refine ⟨earlier, listener, later, rfl, ?_⟩
  rw [List.map_append, List.map_cons, List.nodup_middle, List.nodup_cons, ← List.map_append] at h
  rw [List.filter_append, List.filter_cons_of_neg (by simp), ← List.filter_append,
    List.filter_eq_self]
  intro entry hentry
  refine decide_eq_true ?_
  rintro rfl
  exact h.1 (List.mem_map.mpr ⟨entry, hentry, rfl⟩)

theorem Faithful.left_of_unregistered {found : Bool} (h : Faithful before m)
    (hm : m.happening = .unregistered id found) :
    m.listeners = (standing before).filter fun entry => entry.1 ≠ id := by
  rw [h.left, standing_unregistered hm]

theorem Faithful.left_of_not_found (h : Faithful before m)
    (hm : m.happening = .unregistered id false) : m.listeners = standing before := by
  have hnone : id ∉ (standing before).map Prod.fst := by
    intro hmem
    exact Bool.noConfusion ((h.found id false hm).mpr hmem)
  rw [h.left_of_unregistered hm, List.filter_eq_self]
  intro entry hentry
  refine decide_eq_true ?_
  rintro rfl
  exact hnone (List.mem_map_of_mem hentry)

theorem Faithful.left_of_found (h : Faithful before m) (hbefore : Trustworthy before)
    (hm : m.happening = .unregistered id true) (hfew : (given before).length ≤ numbers) :
    ∃ earlier listener later, standing before = earlier ++ (id, listener) :: later ∧
      m.listeners = earlier ++ later := by
  rw [h.left_of_unregistered hm]
  exact filter_number (standing_nodup hbefore hfew) ((h.found id true hm).mp rfl)

/-! ## Calls -/

namespace Session

/-- Edits call nobody. -/
theorem log_edits (edits : List (Edit α)) (s : Session α) :
    ∃ more, (edits.foldl perform s).log = s.log ++ more ∧ calls more = [] := by
  induction edits generalizing s with
  | nil => exact ⟨[], (List.append_nil _).symm, rfl⟩
  | cons e edits ih =>
      obtain ⟨more, hlog, hcalls⟩ := ih (s.perform e)
      refine ⟨⟨s.notifier.answer e, (s.notifier.edit e).listeners⟩ :: more, ?_, ?_⟩
      · rw [List.foldl_cons, hlog, perform, note, List.append_assoc]
        rfl
      · cases e with
        | register listener => exact hcalls
        | unregister id => exact hcalls

/-- Whatever is edited by the calls, each entry is called once, in order. -/
theorem log_calls (react : Reaction α) (entries : List (Nat × α)) (s : Session α) :
    ∃ during, (entries.foldl (call react) s).log = s.log ++ during ∧ calls during = entries := by
  induction entries generalizing s with
  | nil => exact ⟨[], (List.append_nil _).symm, rfl⟩
  | cons entry entries ih =>
      obtain ⟨edits, hedits, hnone⟩ :=
        log_edits (react (s.note (.called entry.1 entry.2) s.notifier).log)
          (s.note (.called entry.1 entry.2) s.notifier)
      obtain ⟨during, hduring, hentries⟩ := ih (s.call react entry)
      refine ⟨⟨.called entry.1 entry.2, s.notifier.listeners⟩ :: edits ++ during, ?_, ?_⟩
      · rw [List.foldl_cons, hduring, call, hedits, note]
        simp
      · have hcalls : calls (⟨.called entry.1 entry.2, s.notifier.listeners⟩ :: edits ++ during) =
            entry :: (calls edits ++ calls during) := by
          unfold calls
          rw [List.filterMap_append]
          rfl
        rw [hcalls, hnone, hentries]
        rfl

/-- A delivery calls those who are registered when it starts. -/
theorem log_notify (react : Reaction α) (s : Session α) :
    ∃ start during, (s.serve (.notify react)).log = s.log ++ start :: during ∧
      start.happening = .started ∧ calls during = s.notifier.listeners := by
  obtain ⟨during, hlog, hcalls⟩ :=
    log_calls react s.notifier.listeners (s.note .started s.notifier)
  refine ⟨⟨.started, s.notifier.listeners⟩, during, ?_, rfl, hcalls⟩
  refine hlog.trans ?_
  rw [note, List.append_assoc]
  rfl

end Session

/-- **Numbers, answers and calls, in every moment of a session.** However
requests and the edits of called listeners follow each other, a number is new
as long as there are new ones, an unregistration tells whether its number was
registered and takes that registration alone, and a delivery calls those
registered when it starts, each once and in the order of registration. -/
theorem deliveries_of_session (requests : List (Request α)) :
    (∀ before m after, (Session.run requests).log = before ++ m :: after →
      m.listeners = standing (before ++ [m]) ∧
      (∀ id listener, m.happening = .registered id listener →
        (given before).length < numbers → id ∉ (given before).map Prod.fst) ∧
      ∀ id found, m.happening = .unregistered id found →
        (found = true ↔ id ∈ (standing before).map Prod.fst) ∧
        (found = false → m.listeners = standing before) ∧
        (found = true → (given before).length ≤ numbers →
          ∃ earlier listener later, standing before = earlier ++ (id, listener) :: later ∧
            m.listeners = earlier ++ later)) ∧
      ∀ react, ∃ start during,
        (Session.run (requests ++ [.notify react])).log =
          (Session.run requests).log ++ start :: during ∧
        start.happening = .started ∧
        calls during = standing (Session.run requests).log ∧
        (calls during).Sublist (given (Session.run requests).log) ∧
        ((given (Session.run requests).log).length ≤ numbers →
          ((calls during).map Prod.fst).Nodup) := by
  have hsound := Session.sound_run requests
  constructor
  · intro before m after hlog
    have hm : Faithful before m := hsound.trustworthy before m after hlog
    have htrust : Trustworthy (before ++ m :: after) := by
      rw [← hlog]
      exact hsound.trustworthy
    have hbefore : Trustworthy before := htrust.earlier
    refine ⟨hm.left, ?_, ?_⟩
    · intro id listener hhappening hfew
      exact hm.number_new hbefore hhappening hfew
    · intro id found hhappening
      refine ⟨hm.found id found hhappening, ?_, ?_⟩
      · rintro rfl
        exact hm.left_of_not_found hhappening
      · rintro rfl hfew
        exact hm.left_of_found hbefore hhappening hfew
  · intro react
    obtain ⟨start, during, hlog, hstart, hcalls⟩ := (Session.run requests).log_notify react
    rw [hsound.listeners] at hcalls
    have hlonger : Session.run (requests ++ [.notify react]) =
        (Session.run requests).serve (.notify react) := by
      rw [Session.run, List.foldl_append]
      rfl
    refine ⟨start, during, ?_, hstart, hcalls, ?_, ?_⟩
    · rw [hlonger, hlog]
    · rw [hcalls]
      exact standing_sublist _
    · intro hfew
      rw [hcalls]
      exact standing_nodup hsound.trustworthy hfew

-- the first call ends the second registration, and makes a third that waits for the next delivery
example :
    let ending : Reaction Char := fun _ => [.unregister 1, .register 'c']
    calls (Session.run [.edit (.register 'a'), .edit (.register 'b'), .notify ending,
      .notify fun _ => []]).log = [(0, 'a'), (1, 'b'), (0, 'a'), (2, 'c'), (3, 'c')] := by
  decide

end Switchboard.Notifier
