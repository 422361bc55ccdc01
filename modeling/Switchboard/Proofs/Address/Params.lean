import Switchboard.Address.Parser
import Switchboard.Address.Printer
import Switchboard.Proofs.Text.Entries

/-!
# Parameters written and read

What is read of a parameter is tidy: name and value have no blanks at their
ends and no mark inside that would cut them elsewhere. A tidy parameter is read
back from what is written of it, and so is a list of them, an empty name or an
empty value included.
-/

namespace Switchboard.Address

open Text

/-- A parameter that is read back from what is written of it. -/
structure TidyParam (p : Param) : Prop where
  name_clean : Clean isBlank p.name.toList
  name_unmarked : ';' ∉ p.name.toList ∧ '=' ∉ p.name.toList
  value_clean : ∀ value ∈ p.value?, Clean isBlank value.toList
  value_unmarked : ∀ value ∈ p.value?, ';' ∉ value.toList
  /-- A flag is nothing but its name. -/
  flag_named : p.value? = none → p.name ≠ ""

/-- What is written of a parameter behind its semicolon. -/
def paramBody (p : Param) : List Char :=
  match p.value? with
  | none => p.name.toList
  | some value => p.name.toList ++ '=' :: value.toList

variable {p : Param} {ps : List Param} {s t : List Char} {c : Char}

theorem writeParams_eq (ps : List Param) :
    writeParams ps = (ps.map paramBody).flatMap (';' :: ·) := by
  rw [List.flatMap_map]
  unfold writeParams
  congr
  funext p
  unfold writeParam paramBody
  cases p.value? with
  | none => rfl
  | some value => rfl

/-! ## What is written -/

namespace TidyParam

theorem body_ne_nil (h : TidyParam p) : paramBody p ≠ [] := by
  unfold paramBody
  cases hvalue : p.value? with
  | none => simpa using h.flag_named hvalue
  | some value => simp

theorem body_clean (h : TidyParam p) : Clean isBlank (paramBody p) := by
  unfold paramBody
  cases hvalue : p.value? with
  | none => exact h.name_clean
  | some value =>
      exact clean_append_cons h.name_clean.first (by decide) (h.value_clean value hvalue).last

theorem body_unmarked (h : TidyParam p) : ';' ∉ paramBody p := by
  unfold paramBody
  cases hvalue : p.value? with
  | none => exact h.name_unmarked.1
  | some value =>
      have hunmarked := h.value_unmarked value hvalue
      simp [h.name_unmarked.1, hunmarked]

theorem readParam_body (h : TidyParam p) : readParam (paramBody p) = p := by
  obtain ⟨name, value?⟩ := p
  unfold readParam paramBody
  cases value? with
  | none => simp [cutFirst_eq_none_iff.mpr h.name_unmarked.2]
  | some value =>
      have hvalue : Clean isBlank value.toList := h.value_clean value rfl
      simp [cutFirst_append _ h.name_unmarked.2, trim_of_clean h.name_clean,
        trim_of_clean hvalue]

end TidyParam

theorem readParams_writeParams (h : ∀ p ∈ ps, TidyParam p) :
    readParams (writeParams ps) = ps := by
  have hbodies : ∀ body ∈ ps.map paramBody, ';' ∉ body ∧ trim body ≠ [] := by
    intro body hbody
    obtain ⟨p, hp, rfl⟩ := List.mem_map.mp hbody
    rw [trim_of_clean (h p hp).body_clean]
    exact ⟨(h p hp).body_unmarked, (h p hp).body_ne_nil⟩
  have hread : ∀ p ∈ ps, readParam (trim (paramBody p)) = p := by
    intro p hp
    rw [trim_of_clean (h p hp).body_clean, (h p hp).readParam_body]
  calc readParams (writeParams ps)
      = (entries ';' ([] ++ (ps.map paramBody).flatMap (';' :: ·))).map readParam := by
        rw [readParams, writeParams_eq, List.nil_append]
    _ = ((ps.map paramBody).map trim).map readParam := by
        rw [entries_append_flatMap hbodies, entries_nil, List.nil_append]
    _ = ps.map fun p => readParam (trim (paramBody p)) := by
        rw [List.map_map, List.map_map]
        rfl
    _ = ps := (List.map_congr_left hread).trans ps.map_id'

/-- Parameters do not end in a blank, nor does a text with parameters behind it. -/
theorem last_append_writeParams (hs : ∀ c ∈ s.getLast?, isBlank c = false)
    (h : ∀ p ∈ ps, TidyParam p) : ∀ c ∈ (s ++ writeParams ps).getLast?, isBlank c = false := by
  rw [writeParams_eq]
  apply last_append_flatMap hs
  intro body hbody
  obtain ⟨p, hp, rfl⟩ := List.mem_map.mp hbody
  exact ⟨(h p hp).body_ne_nil, (h p hp).body_clean.last⟩

/-! ## What is read -/

theorem tidy_of_mem_readParams (h : p ∈ readParams s) : TidyParam p := by
  obtain ⟨t, ht, rfl⟩ := List.mem_map.mp h
  obtain ⟨hne, hclean, hchars⟩ := mem_entries ht
  have hunmarked : ';' ∉ t := fun hmem => (hchars _ hmem).2 rfl
  unfold readParam
  split
  · rename_i name value hcut
    obtain ⟨rfl, hname⟩ := eq_append_of_cutFirst hcut
    rw [List.mem_append, List.mem_cons, not_or, not_or] at hunmarked
    exact {
      name_clean := by simpa using clean_trim name
      name_unmarked := by
        rw [String.toList_ofList]
        exact ⟨fun hmem => hunmarked.1 (mem_of_mem_strip hmem),
          fun hmem => hname (mem_of_mem_strip hmem)⟩
      value_clean := by
        rintro _ ⟨⟩
        simpa using clean_trim value
      value_unmarked := by
        rintro _ ⟨⟩
        rw [String.toList_ofList]
        exact fun hmem => hunmarked.2.2 (mem_of_mem_strip hmem)
      flag_named := fun hnone => nomatch hnone }
  · rename_i hcut
    have hname := cutFirst_eq_none_iff.mp hcut
    exact {
      name_clean := by simpa using hclean
      name_unmarked := by simpa using ⟨hunmarked, hname⟩
      value_clean := fun _ hvalue => nomatch hvalue
      value_unmarked := fun _ hvalue => nomatch hvalue
      flag_named := fun _ => by simpa using hne }

theorem mem_of_mem_paramBody_readParam (h : c ∈ paramBody (readParam t)) : c ∈ t := by
  unfold readParam at h
  split at h
  · rename_i name value hcut
    obtain ⟨rfl, -⟩ := eq_append_of_cutFirst hcut
    simp only [paramBody, String.toList_ofList, List.mem_append, List.mem_cons] at h ⊢
    exact h.imp mem_of_mem_strip (Or.imp_right mem_of_mem_strip)
  · simpa [paramBody] using h

/-- No character is made up but the semicolons in between. -/
theorem mem_writeParams_readParams (h : c ∈ writeParams (readParams s)) : c = ';' ∨ c ∈ s := by
  rw [writeParams_eq, List.mem_flatMap] at h
  obtain ⟨body, hbody, hc⟩ := h
  obtain ⟨p, hp, rfl⟩ := List.mem_map.mp hbody
  obtain ⟨t, ht, rfl⟩ := List.mem_map.mp hp
  rcases List.mem_cons.mp hc with hc | hc
  · exact Or.inl hc
  · obtain ⟨-, -, hchars⟩ := mem_entries ht
    exact Or.inr (hchars c (mem_of_mem_paramBody_readParam hc)).1

end Switchboard.Address
