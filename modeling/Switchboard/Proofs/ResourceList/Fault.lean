import Switchboard.Proofs.Markup.Prefix
import Switchboard.ResourceList

/-!
# Faults in a resource list

A list is read as a whole or not at all. However many addresses are found in
front of a fault, the fault takes them all: some markup behind them does not
end, or an end tag closes another element than the innermost open one, or an
entry cannot be read.
-/

namespace Switchboard.ResourceList

open Markup

variable {front rest : String} {first later : List Tag} {entries : List Address}

/-- Something is wrong behind `front`: in `rest` some markup does not end, or an
end tag does not close the innermost open element, or the attributes of an entry
or the references in one of its addresses cannot be read. Elements that are
still open at the end are no fault. -/
def FaultAfter (front rest : String) : Prop :=
  ∀ first later, scan front.toList = some first → scan rest.toList = some later →
    nested [] (first ++ later) = false ∨ values? later = none

theorem values?_append (first later : List Tag) :
    values? (first ++ later) =
      (values? first).bind fun found => (values? later).map (found ++ ·) := by
  unfold values?
  rw [List.filterMap_append, List.mapM_append]
  cases (first.filterMap entryAttributes?).mapM fun rest => (attributes? rest).bind uris? with
  | none => rfl
  | some found =>
      cases (later.filterMap entryAttributes?).mapM fun rest => (attributes? rest).bind uris? with
      | none => rfl
      | some more => exact congrArg some List.flatten_append

theorem parse?_eq_none_iff {s : String} :
    parse? s = none ↔ ∀ tags, tags? s.toList = some tags → values? tags = none := by
  rw [parse?, Option.map_eq_none_iff, Option.bind_eq_none_iff]

theorem of_parse? (h : parse? front = some entries) :
    ∃ first, scan front.toList = some first ∧ (values? first).isSome := by
  obtain ⟨values, hvalues, -⟩ := Option.map_eq_some_iff.mp h
  obtain ⟨first, htags, hfirst⟩ := Option.bind_eq_some_iff.mp hvalues
  obtain ⟨tags, hscan, hif⟩ := Option.bind_eq_some_iff.mp htags
  split at hif
  · obtain rfl := Option.some.inj hif
    exact ⟨tags, hscan, by simp [hfirst]⟩
  · cases hif

/-- **A fault takes all.** What stands behind a text that reads as a list makes
the whole unreadable exactly if there is a fault in it. -/
theorem parse?_append_eq_none_iff (h : parse? front = some entries) :
    parse? (front ++ rest) = none ↔ FaultAfter front rest := by
  obtain ⟨first, hscan, hvalues⟩ := of_parse? h
  obtain ⟨found, hfound⟩ := Option.isSome_iff_exists.mp hvalues
  have hboth : scan (front ++ rest).toList = (scan rest.toList).map (first ++ ·) := by
    rw [String.toList_append]
    exact scan_append hscan _
  have hlater : ∀ later, values? (first ++ later) = none ↔ values? later = none := by
    intro later
    rw [values?_append, hfound, Option.bind_some, Option.map_eq_none_iff]
  rw [parse?_eq_none_iff, tags?, hboth]
  unfold FaultAfter
  cases scan rest.toList with
  | none => simp
  | some later =>
      have hfault : (∀ a b, scan front.toList = some a → some later = some b →
          nested [] (a ++ b) = false ∨ values? b = none) ↔
            nested [] (first ++ later) = false ∨ values? later = none := by
        constructor
        · intro hall
          exact hall first later hscan rfl
        · rintro hone a b ha ⟨⟩
          obtain rfl := Option.some.inj (hscan.symm.trans ha)
          exact hone
      rw [hfault, Option.map_some, Option.bind_some]
      by_cases hnested : nested [] (first ++ later) = true
      · simp [hnested, hlater]
      · simp [hnested]

end Switchboard.ResourceList
