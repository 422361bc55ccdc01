import Mathlib.Data.List.Basic
import Mathlib.Data.List.Induction

/-!
# Histories that grow at the end

A history is a list of steps, and grows by a last one. A step of the longer
history is the last one, or a step of what was there before. What steps bring
about and take back again goes back to the latest step that had a say in it.
-/

namespace Switchboard.Latest

variable {σ κ ε : Type} {steps before after : List κ} {step last : κ}

/-- A step of a longer history is the last one, or was there before. -/
theorem snoc_eq_split_iff : steps ++ [last] = before ++ step :: after ↔
    (after = [] ∧ steps = before ∧ last = step) ∨
      ∃ between, after = between ++ [last] ∧ steps = before ++ step :: between := by
  constructor
  · intro h
    rcases List.eq_nil_or_concat after with rfl | ⟨between, final, rfl⟩
    · obtain ⟨hsteps, hlast⟩ := List.append_inj' h rfl
      exact .inl ⟨rfl, hsteps, List.singleton_inj.mp hlast⟩
    · rw [List.concat_eq_append, ← List.cons_append, ← List.append_assoc] at h
      obtain ⟨hsteps, hlast⟩ := List.append_inj' h rfl
      rw [List.concat_eq_append, List.singleton_inj.mp hlast]
      exact .inr ⟨between, rfl, hsteps⟩
  · rintro (⟨rfl, rfl, rfl⟩ | ⟨between, rfl, rfl⟩)
    · rfl
    · rw [List.append_assoc, List.cons_append]

/-- What a step brings about, or leaves as it was unless it touches it, goes
back to a step that nothing has touched since. -/
theorem foldl_iff_since {run : σ → κ → σ} {brings : σ → κ → Prop} (holds : σ → Prop)
    (touches : κ → Prop)
    (hstep : ∀ s step, holds (run s step) ↔ brings s step ∨ holds s ∧ ¬touches step)
    (s : σ) (steps : List κ) :
    holds (steps.foldl run s) ↔
      (holds s ∧ ∀ step ∈ steps, ¬touches step) ∨
        ∃ before step after, steps = before ++ step :: after ∧
          brings (before.foldl run s) step ∧ ∀ later ∈ after, ¬touches later := by
  induction steps using List.reverseRecOn with
  | nil => simp
  | append_singleton steps last ih =>
      rw [List.foldl_append, List.foldl_cons, List.foldl_nil, hstep, ih, List.forall_mem_append]
      constructor
      · rintro (hlast | ⟨⟨hstart, hkept⟩ | ⟨before, step, after, rfl, hbrings, hsince⟩, hlast⟩)
        · exact .inr ⟨steps, last, [], rfl, hlast, by simp⟩
        · exact .inl ⟨hstart, hkept, by simpa using hlast⟩
        · right
          refine ⟨before, step, after ++ [last], by simp, hbrings, ?_⟩
          rw [List.forall_mem_append]
          exact ⟨hsince, by simpa using hlast⟩
      · rintro (⟨hstart, hkept, hlast⟩ | ⟨before, step, after, heq, hbrings, hsince⟩)
        · exact .inr ⟨.inl ⟨hstart, hkept⟩, hlast last (by simp)⟩
        -- either the step is the last one, or it was there before
        · rcases snoc_eq_split_iff.mp heq with ⟨rfl, rfl, rfl⟩ | ⟨between, rfl, rfl⟩
          · exact .inl hbrings
          · rw [List.forall_mem_append] at hsince
            exact .inr ⟨.inr ⟨before, step, between, rfl, hbrings, hsince.1⟩,
              hsince.2 last (by simp)⟩

/-! ## What is left -/

/-- What the steps bring, in this order, without what a later step takes. -/
def kept (brings : κ → Option ε) (takes : κ → ε → Bool) : List κ → List ε
  | [] => []
  | step :: later =>
    (brings step).toList.filter (fun e => later.all (!takes · e)) ++ kept brings takes later

variable (brings : κ → Option ε) (takes : κ → ε → Bool)

/-- The last step takes what was left before, and brings its own to the end. -/
theorem kept_snoc (steps : List κ) (last : κ) :
    kept brings takes (steps ++ [last]) =
      (kept brings takes steps).filter (!takes last ·) ++ (brings last).toList := by
  induction steps with
  | nil => simp [kept]
  | cons step later ih =>
      have hsplit : (fun e => (later ++ [last]).all (!takes · e)) =
          fun e => !takes last e && later.all (!takes · e) := by
        funext e
        rw [List.all_append, List.all_cons, List.all_nil, Bool.and_true, Bool.and_comm]
      rw [List.cons_append, kept, ih, kept, List.filter_append, List.filter_filter, hsplit,
        List.append_assoc]

/-- What a step brings and no step takes is left. -/
theorem mem_kept {steps : List κ} {e : ε} (hstep : step ∈ steps) (hbrings : brings step = some e)
    (hkept : ∀ later ∈ steps, takes later e = false) : e ∈ kept brings takes steps := by
  induction steps with
  | nil => cases hstep
  | cons first later ih =>
      obtain ⟨-, hlater⟩ := List.forall_mem_cons.mp hkept
      rw [kept]
      rcases List.mem_cons.mp hstep with rfl | hstep
      · refine List.mem_append_left _ (List.mem_filter.mpr ⟨?_, ?_⟩)
        · rw [hbrings]
          exact List.mem_singleton.mpr rfl
        · rw [List.all_eq_true]
          intro last hlast
          rw [hlater last hlast]
          rfl
      · exact List.mem_append_right _ (ih hstep hlater)

/-- Where nothing is left twice, a step that brings the same again takes it too:
what is left was brought by the latest step that had a say in it. -/
theorem kept_eq_of_nodup [DecidableEq ε] {steps : List κ} (h : (kept brings takes steps).Nodup) :
    kept brings (fun step e => brings step = some e || takes step e) steps =
      kept brings takes steps := by
  induction steps with
  | nil => rfl
  | cons step later ih =>
      rw [kept] at h
      obtain ⟨-, hlater, hapart⟩ := List.nodup_append.mp h
      rw [kept, kept, ih hlater]
      congr 1
      apply List.filter_congr
      intro e he
      rw [Bool.eq_iff_iff, List.all_eq_true, List.all_eq_true]
      constructor
      · intro hall last hlast
        have hlast := hall last hlast
        simp only [Bool.not_or, Bool.and_eq_true] at hlast
        exact hlast.2
      · intro hall last hlast
        have hkept : ∀ last ∈ later, takes last e = false := by
          intro last hlast
          simpa using hall last hlast
        have hnew : brings last ≠ some e := by
          intro hbrings
          have hleft : e ∈ (brings step).toList.filter fun e => later.all (!takes · e) :=
            List.mem_filter.mpr ⟨he, List.all_eq_true.mpr hall⟩
          exact hapart e hleft e (mem_kept brings takes hlast hbrings hkept) rfl
        simp [hnew, hkept last hlast]

theorem kept_sublist (steps : List κ) :
    (kept brings takes steps).Sublist (steps.filterMap brings) := by
  rw [List.filterMap_eq_flatMap_toList]
  induction steps with
  | nil => exact List.Sublist.refl _
  | cons step later ih =>
      rw [List.flatMap_cons]
      exact List.filter_sublist.append ih

end Switchboard.Latest
