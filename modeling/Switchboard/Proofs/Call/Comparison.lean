import Mathlib.Tactic.Tauto
import Switchboard.Proofs.Call.History

/-!
# Comparing parameters

Most of what parameters hold is compared by value. Frame rates are compared as
numbers, paths by component and devices by identity: these five values are
taken together as what is compared loosely. Parameters that differ in nothing
else, and in these no more than the comparison allows, stay so under the same
changes, and they compare equal as long as their rates are numbers. A rate that
is no number differs from itself, and from its copy as well.
-/

namespace Switchboard.Call

/-! ## Single values -/

theorem FrameRate.same_self (f : FrameRate) : f.same f = !f.isNaN := by
  simp [same]

/-- Equal bit by bit, or as numbers. -/
def FrameRate.Like (f g : FrameRate) : Prop := f = g ∨ f.same g = true

theorem FrameRate.Like.same_iff {f g : FrameRate} (h : f.Like g) :
    f.same g = true ↔ g.isNaN = false := by
  rcases h with rfl | hsame
  · rw [same_self, Bool.not_eq_true']
  · refine ⟨fun _ => ?_, fun _ => hsame⟩
    simp only [same, Bool.and_eq_true, Bool.not_eq_true'] at hsame
    exact hsame.1.2

/-- Both are absent, or both are present and have the same components. -/
def Path.sameOption : Option Path → Option Path → Bool
  | none, none => true
  | some p, some q => p.same q
  | _, _ => false

theorem Recording.same_eq (r s : Recording) :
    r.same s = (decide ({ r with path? := s.path? } = s) && Path.sameOption r.path? s.path?) :=
  rfl

@[simp] theorem Path.sameOption_self (path? : Option Path) : sameOption path? path? = true := by
  cases path? <;> simp [sameOption, same]

@[simp] theorem Device.sameOption_self (device? : Option Device) :
    sameOption device? device? = true := by
  cases device? <;> simp [sameOption, same]

/-! ## What is compared loosely -/

structure Loose where
  receivedRate : FrameRate
  sentRate : FrameRate
  path? : Option Path
  input? : Option Device
  output? : Option Device

/-- Equal as far as the comparison goes, or rates with the same bits. -/
structure Loose.Like (l m : Loose) : Prop where
  receivedRate : l.receivedRate.Like m.receivedRate
  sentRate : l.sentRate.Like m.sentRate
  path : Path.sameOption l.path? m.path? = true
  input : Device.sameOption l.input? m.input? = true
  output : Device.sameOption l.output? m.output? = true

/-- What a change makes of these values. -/
def Change.onLoose (l : Loose) : Change → Loose
  | .set (.receivedRate receivedRate) => { l with receivedRate }
  | .set (.sentRate sentRate) => { l with sentRate }
  | .set (.recordPath path?) => { l with path? }
  | .set (.input input?) => { l with input? }
  | .set (.output output?) => { l with output? }
  | _ => l

theorem Loose.Like.refl (l : Loose) : l.Like l where
  receivedRate := .inl rfl
  sentRate := .inl rfl
  path := Path.sameOption_self _
  input := Device.sameOption_self _
  output := Device.sameOption_self _

theorem Loose.Like.change {l m : Loose} (h : l.Like m) (c : Change) :
    (c.onLoose l).Like (c.onLoose m) := by
  cases c with
  | set setting =>
      cases setting with
      | receivedRate rate => exact { h with receivedRate := .inl rfl }
      | sentRate rate => exact { h with sentRate := .inl rfl }
      | recordPath path? => exact { h with path := Path.sameOption_self _ }
      | input device? => exact { h with input := Device.sameOption_self _ }
      | output device? => exact { h with output := Device.sameOption_self _ }
      | _ => exact h
  | _ => exact h

namespace Parameters

def loose (p : Parameters) : Loose where
  receivedRate := p.video.receivedRate
  sentRate := p.video.sentRate
  path? := p.recording.path?
  input? := p.input?
  output? := p.output?

def withLoose (p : Parameters) (l : Loose) : Parameters :=
  { p with
    video := { p.video with receivedRate := l.receivedRate, sentRate := l.sentRate }
    recording := { p.recording with path? := l.path? }
    input? := l.input?
    output? := l.output? }

variable {p q : Parameters}

/-- No change reads these values but the one that sets them. -/
theorem loose_change (p : Parameters) (c : Change) : (p.change c).loose = c.onLoose p.loose := by
  cases c with
  | set setting => cases setting <;> rfl
  | adapt edge pingMs =>
      show (p.adapt edge pingMs).loose = p.loose
      unfold adapt
      split <;> rfl
  | commit agreement => rfl
  | copy => rfl

theorem change_withLoose (p : Parameters) (l : Loose) (c : Change) :
    (p.withLoose l).change c = (p.change c).withLoose (c.onLoose l) := by
  cases c with
  | set setting => cases setting <;> rfl
  | adapt edge pingMs =>
      have hlow : (p.withLoose l).network.lowBandwidth = p.network.lowBandwidth := rfl
      show (p.withLoose l).adapt edge pingMs = (p.adapt edge pingMs).withLoose l
      unfold adapt
      rw [hlow]
      split <;> rfl
  | commit agreement => rfl
  | copy => rfl

/-! ## Parameters that are alike -/

/-- They differ in what is compared loosely at most, and there the comparison
finds no difference but in rates of the same bits. -/
structure Alike (p q : Parameters) : Prop where
  rest : p.withLoose q.loose = q
  loose : p.loose.Like q.loose

theorem Alike.refl (p : Parameters) : p.Alike p := ⟨rfl, .refl _⟩

theorem Alike.change (h : p.Alike q) (c : Change) : (p.change c).Alike (q.change c) := by
  constructor
  · rw [loose_change, ← change_withLoose, h.rest]
  · rw [loose_change, loose_change]
    exact h.loose.change c

theorem Alike.changeAll (h : p.Alike q) (changes : List Change) :
    (p.changeAll changes).Alike (q.changeAll changes) := by
  induction changes generalizing p q with
  | nil => exact h
  | cons c rest ih =>
      rw [changeAll_cons, changeAll_cons]
      exact ih (h.change c)

/-- Both frame rates are numbers. -/
def HasRates (p : Parameters) : Prop :=
  p.video.receivedRate.isNaN = false ∧ p.video.sentRate.isNaN = false

theorem withLoose_loose_eq_iff : p.withLoose q.loose = q ↔
    { p with video := q.video, recording := q.recording, input? := q.input?,
             output? := q.output? } = q ∧
      { p.video with receivedRate := q.video.receivedRate, sentRate := q.video.sentRate } =
        q.video ∧
      { p.recording with path? := q.recording.path? } = q.recording := by
  -- nested records: the outer one agrees only together with the two inner ones
  obtain ⟨audio, video, errorCorrection, text, feedback, network, recording⟩ := q
  simp only [withLoose, loose, mk.injEq, true_and, and_true]
  tauto

theorem same_eq_true_iff : p.same q = true ↔
    p.withLoose q.loose = q ∧ p.video.receivedRate.same q.video.receivedRate = true ∧
      p.video.sentRate.same q.video.sentRate = true ∧
      Path.sameOption p.recording.path? q.recording.path? = true ∧
      Device.sameOption p.input? q.input? = true ∧
      Device.sameOption p.output? q.output? = true := by
  rw [withLoose_loose_eq_iff]
  simp only [same, Video.same, Recording.same_eq, Bool.and_eq_true, decide_eq_true_eq]
  tauto

theorem Alike.of_same (h : p.same q = true) : p.Alike q := by
  obtain ⟨hrest, hreceived, hsent, hpath, hinput, houtput⟩ := same_eq_true_iff.mp h
  exact ⟨hrest, .inr hreceived, .inr hsent, hpath, hinput, houtput⟩

theorem Alike.same_iff (h : p.Alike q) : p.same q = true ↔ q.HasRates := by
  have hreceived : p.video.receivedRate.same q.video.receivedRate = true ↔ _ :=
    h.loose.receivedRate.same_iff
  have hsent : p.video.sentRate.same q.video.sentRate = true ↔ _ := h.loose.sentRate.same_iff
  rw [same_eq_true_iff, hreceived, hsent]
  constructor
  · rintro ⟨-, hreceived, hsent, -⟩
    exact ⟨hreceived, hsent⟩
  · rintro ⟨hreceived, hsent⟩
    exact ⟨h.rest, hreceived, hsent, h.loose.path, h.loose.input, h.loose.output⟩

/-- **Copies compare equal.** A copy of parameters, and a copy of the copy,
compares equal to them exactly if their frame rates are numbers, and so it is
again after any changes made to both. Other parameters that compare equal to
them are not told apart by the same changes either. -/
theorem copies_same_iff (p : Parameters) :
    (p.copy.same p = true ↔ p.HasRates) ∧ (p.copy.copy.same p = true ↔ p.HasRates) ∧
      ∀ changes,
        ((p.copy.changeAll changes).same (p.changeAll changes) = true ↔
          (p.changeAll changes).HasRates) ∧
        ((p.copy.copy.changeAll changes).same (p.changeAll changes) = true ↔
          (p.changeAll changes).HasRates) ∧
        ∀ q : Parameters, q.same p = true →
          ((q.changeAll changes).same (p.changeAll changes) = true ↔
            (p.changeAll changes).HasRates) := by
  have hcopy : p.copy.Alike p := by
    rw [copy_eq]
    exact .refl p
  have hcopies : p.copy.copy.Alike p := by
    rw [copy_eq]
    exact hcopy
  refine ⟨hcopy.same_iff, hcopies.same_iff, ?_⟩
  intro changes
  refine ⟨(hcopy.changeAll changes).same_iff, (hcopies.changeAll changes).same_iff, ?_⟩
  intro q hq
  exact ((Alike.of_same hq).changeAll changes).same_iff

/-- The rate that was received is set to no number. -/
theorem copy_told_apart :
    ¬∀ (origin : Origin) (changes : List Change),
      (origin.parameters.changeAll changes).copy.same (origin.parameters.changeAll changes) =
        true := by
  intro hall
  let changes : List Change := [.set (.receivedRate ⟨0x7FC00000⟩)]
  have hrates := (Alike.refl _).same_iff.mp (hall .blank changes)
  exact absurd hrates.1 (by decide)

end Parameters

end Switchboard.Call
