import Switchboard.Content
import Switchboard.Proofs.Text.Strip

/-!
# Media types as they are written

A media type is known by its name alone. It may be written in any letter case
and with blanks around it, and whatever follows a semicolon is a parameter.
-/

namespace Switchboard

namespace Text

variable {c : Char} {s : List Char}

/-- No blank has letter case. -/
theorem toLower_of_isBlank (h : isBlank c = true) : c.toLower = c := by
  have hletter : ¬(c.val ≥ 'A'.val ∧ c.val ≤ 'Z'.val) := by
    intro hletter
    have hrange : 65 ≤ c.toNat ∧ c.toNat ≤ 90 := hletter
    simp [isBlank, blankRanges] at h
    omega
  exact dif_neg hletter

theorem clean_of_clean_lower (h : Clean isBlank (lower s)) : Clean isBlank s where
  first := by
    intro c hc
    by_contra hblank
    rw [Bool.not_eq_false] at hblank
    have hlower := h.first c.toLower (by simp [lower, List.head?_map, Option.mem_def.mp hc])
    rw [toLower_of_isBlank hblank, hblank] at hlower
    cases hlower
  last := by
    intro c hc
    by_contra hblank
    rw [Bool.not_eq_false] at hblank
    have hlower := h.last c.toLower (by simp [lower, List.getLast?_map, Option.mem_def.mp hc])
    rw [toLower_of_isBlank hblank, hblank] at hlower
    cases hlower

end Text

namespace MediaType

/-- The media type is written as this name: in any letter case, with blanks
around it and parameters behind a semicolon. -/
def Spells (m : MediaType) (name : String) : Prop :=
  ∃ before spelled after parameters,
    m.written.toList = before ++ spelled ++ after ++ parameters ∧
      (∀ c ∈ before ++ after, Text.isBlank c = true) ∧
      Text.lower spelled = Text.lower name.toList ∧ ∀ c ∈ parameters.head?, c = ';'

theorem toList_essence (m : MediaType) :
    m.essence.toList = Text.trim (m.written.toList.takeWhile (· ≠ ';')) :=
  String.toList_ofList

/-- The essence is all that is read of a media type. -/
theorem spells_iff {m : MediaType} {name : String}
    (hclean : Text.Clean Text.isBlank (Text.lower name.toList))
    (hmark : ';' ∉ Text.lower name.toList) :
    m.Spells name ↔ Text.sameName m.essence name = true := by
  rw [Text.sameName_iff, toList_essence]
  constructor
  · rintro ⟨before, spelled, after, parameters, hwritten, hblank, hname, hparameters⟩
    have hspelled : Text.Clean Text.isBlank spelled :=
      Text.clean_of_clean_lower (hname ▸ hclean)
    have hbefore : ∀ c ∈ before, Text.isBlank c = true :=
      fun c hc => hblank c (List.mem_append_left after hc)
    have hafter : ∀ c ∈ after, Text.isBlank c = true :=
      fun c hc => hblank c (List.mem_append_right before hc)
    -- neither a blank nor a letter of the name is a semicolon, so the cut is behind them
    have hunmarked : ∀ c ∈ before ++ spelled ++ after, decide (c ≠ ';') = true := by
      intro c hc
      rw [decide_eq_true_eq]
      rintro rfl
      rcases List.mem_append.mp hc with hc | hc
      · rcases List.mem_append.mp hc with hc | hc
        · exact absurd (hbefore _ hc) (by decide)
        · exact Text.not_mem_of_sameFolded (Text.sameFolded_iff.mpr hname) (by decide) hmark hc
      · exact absurd (hafter _ hc) (by decide)
    have hrest : parameters.takeWhile (fun c => decide (c ≠ ';')) = [] := by
      cases parameters with
      | nil => rfl
      | cons c rest =>
          obtain rfl : c = ';' := hparameters c rfl
          rfl
    rw [hwritten, List.takeWhile_append_of_pos hunmarked, hrest, List.append_nil, Text.trim,
      Text.strip_around hbefore hafter hspelled, hname]
  · intro hsame
    obtain ⟨before, after, haround, hblank⟩ :=
      Text.exists_around_strip Text.isBlank (m.written.toList.takeWhile (· ≠ ';'))
    refine ⟨before, _, after, m.written.toList.dropWhile (· ≠ ';'), ?_, hblank, hsame, ?_⟩
    · rw [Text.trim, ← haround, List.takeWhile_append_dropWhile]
    · intro c hc
      have hhead := List.head?_dropWhile_not (fun c => decide (c ≠ ';')) m.written.toList
      rw [Option.mem_def.mp hc] at hhead
      simpa using hhead

theorem same_cpim_iff {m : MediaType} : m.same .cpim = true ↔ m.Spells "message/cpim" := by
  have hname : cpim.essence = "message/cpim" := by decide
  have hplain : (Text.lower "message/cpim".toList).all (fun c => !Text.isBlank c) = true := by
    decide
  have hclean : Text.Clean Text.isBlank (Text.lower "message/cpim".toList) := by
    refine Text.clean_of_forall fun c hc => ?_
    simpa using List.all_eq_true.mp hplain c hc
  rw [spells_iff hclean (by decide), same, hname]

end MediaType

end Switchboard
