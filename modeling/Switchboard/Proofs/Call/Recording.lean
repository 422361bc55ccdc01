import Switchboard.Proofs.Call.History
import Switchboard.Proofs.Latest

/-!
# Recording that is told of

Whoever tells the peer about recording has a state to tell: from being
unspoken of it goes to off at once. Only a setting of the state itself can take
this back while the peer is still to be told, and that stays so until one of
the two is set again.
-/

namespace Switchboard.Call

/-- The peer is told about recording, and there is no state to tell. -/
structure Recording.Hollow (r : Recording) : Prop where
  aware : r.aware = true
  unspoken : r.state = .unspoken

/-- The change is a setting of the state, or of whether it is told. -/
def Change.concernsRecording : Change → Bool
  | .set (.recordAware _) => true
  | .set (.recordingState _) => true
  | _ => false

variable {p : Parameters} {c : Change}

namespace Parameters

theorem not_hollow_setRecordAware (p : Parameters) (aware : Bool) :
    ¬(p.setRecordAware aware).recording.Hollow := by
  rintro ⟨haware, hunspoken⟩
  simp only [setRecordAware] at haware hunspoken
  split at hunspoken
  · exact RecordingState.noConfusion hunspoken
  · rename_i hnot
    exact hnot ⟨haware, hunspoken⟩

/-- Nobody starts with a state that is told and unspoken of. -/
theorem not_hollow_origin (origin : Origin) : ¬origin.parameters.recording.Hollow := by
  cases origin with
  | blank => exact fun h => Bool.noConfusion h.aware
  | configured defaults initiative => exact not_hollow_setRecordAware _ _

theorem change_recording (h : c.concernsRecording = false) :
    (p.change c).recording.aware = p.recording.aware ∧
      (p.change c).recording.state = p.recording.state := by
  cases c with
  | set setting =>
      cases setting with
      | recordAware aware => exact Bool.noConfusion h
      | recordingState state => exact Bool.noConfusion h
      | _ => exact ⟨rfl, rfl⟩
  | adapt edge pingMs =>
      show (p.adapt edge pingMs).recording.aware = _ ∧ (p.adapt edge pingMs).recording.state = _
      unfold adapt
      split <;> exact ⟨rfl, rfl⟩
  | commit agreement => exact ⟨rfl, rfl⟩
  | copy => exact ⟨rfl, rfl⟩

/-- The state is taken back in the very change, or has been before. -/
theorem hollow_change_iff (p : Parameters) (c : Change) :
    (p.change c).recording.Hollow ↔
      (c = .set (.recordingState .unspoken) ∧ p.recording.aware = true) ∨
        p.recording.Hollow ∧ ¬c.concernsRecording = true := by
  cases hc : c.concernsRecording with
  -- all other changes leave both values alone
  | false =>
      obtain ⟨haware, hstate⟩ := change_recording (p := p) hc
      have hne : c ≠ .set (.recordingState .unspoken) := by
        rintro rfl
        exact Bool.noConfusion hc
      constructor
      · rintro ⟨hold, hunspoken⟩
        exact .inr ⟨⟨haware ▸ hold, hstate ▸ hunspoken⟩, Bool.false_ne_true⟩
      · rintro (⟨heq, -⟩ | ⟨⟨hold, hunspoken⟩, -⟩)
        · exact absurd heq hne
        · exact ⟨haware.trans hold, hstate.trans hunspoken⟩
  | true =>
      cases c with
      | set setting =>
          cases setting with
          | recordAware aware =>
              have hnot := not_hollow_setRecordAware p aware
              simp [change, set, hnot]
          | recordingState state =>
              constructor
              · rintro ⟨haware, rfl⟩
                exact .inl ⟨rfl, haware⟩
              · rintro (⟨heq, haware⟩ | ⟨-, hfalse⟩)
                · cases heq
                  exact ⟨haware, rfl⟩
                · exact absurd rfl hfalse
          | _ => exact Bool.noConfusion hc
      | adapt edge pingMs => exact Bool.noConfusion hc
      | commit agreement => exact Bool.noConfusion hc
      | copy => exact Bool.noConfusion hc

/-- **A state to tell.** After any history the peer is told about recording
without a state to tell exactly if, while the peer was told, somebody set the
state back to unspoken of, and nobody has set either of the two since. -/
theorem told_without_state_iff (origin : Origin) (changes : List Change) :
    let recording := (origin.parameters.changeAll changes).recording
    (recording.aware = true ∧ recording.state = .unspoken) ↔
      ∃ before after, changes = before ++ .set (.recordingState .unspoken) :: after ∧
        (origin.parameters.changeAll before).recording.aware = true ∧
          ∀ later ∈ after, later.concernsRecording = false := by
  intro recording
  -- a hollow start is ruled out, so only a step that makes it hollow is left
  have hsince := Latest.foldl_iff_since (fun p => p.recording.Hollow)
    (fun c => c.concernsRecording = true) hollow_change_iff origin.parameters changes
  have hstart := not_hollow_origin origin
  simp only [hstart, false_and, false_or, Bool.not_eq_true] at hsince
  constructor
  · rintro ⟨haware, hunspoken⟩
    obtain ⟨before, c, after, heq, ⟨rfl, htold⟩, hlater⟩ := hsince.mp ⟨haware, hunspoken⟩
    exact ⟨before, after, heq, htold, hlater⟩
  · rintro ⟨before, after, heq, htold, hlater⟩
    obtain ⟨haware, hunspoken⟩ := hsince.mpr ⟨before, _, after, heq, ⟨rfl, htold⟩, hlater⟩
    exact ⟨haware, hunspoken⟩

/-- Recording is told of, and its state is then set back. -/
theorem told_without_state :
    ¬∀ (origin : Origin) (changes : List Change),
      (origin.parameters.changeAll changes).recording.aware = true →
        (origin.parameters.changeAll changes).recording.state ≠ .unspoken := by
  intro hall
  let changes : List Change := [.set (.recordAware true), .set (.recordingState .unspoken)]
  have haware : (Origin.blank.parameters.changeAll changes).recording.aware = true := rfl
  exact hall .blank changes haware rfl

end Parameters

end Switchboard.Call
