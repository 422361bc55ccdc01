import Switchboard.Proofs.Address.Uri

/-!
# Addresses read back

Nothing is escaped in what is written, so two things can be lost of an address
that was read. A display name may hold quotes at its ends, which are taken for
the quotes around it. And a URI may hold an opening bracket: inside of brackets
it does no harm, but a URI that stands alone is then refused. Nothing else is
lost.
-/

namespace Switchboard.Address

open Text

variable {a : Address} {s before uri after : List Char} {name : String}

/-- The display name, if any, neither starts nor ends with a quote. -/
def Unquoted (a : Address) : Prop :=
  ∀ name ∈ a.displayName?, name.toList.head? ≠ some '"' ∧ name.toList.getLast? ≠ some '"'

/-- The URI is written in brackets, or it has no opening bracket. -/
def Delimited (a : Address) : Prop :=
  a.displayName? ≠ none ∨ a.params ≠ [] ∨ '<' ∉ a.uriText.toList

/-- What reading makes of an address. -/
structure Legible (a : Address) : Prop extends Tidy a where
  name_ne : ∀ name ∈ a.displayName?, name ≠ ""
  name_clean : ∀ name ∈ a.displayName?, Clean isBlank name.toList
  name_unmarked : ∀ name ∈ a.displayName?, '<' ∉ name.toList
  params_tidy : ∀ p ∈ a.params, TidyParam p
  /-- Only a URI that was read without brackets may hold a closing one. -/
  closing : '>' ∈ a.writeUri → a.displayName? = none ∧ a.params = [] ∧ '<' ∉ a.writeUri

/-! ## Display names -/

theorem clean_quotes_iff :
    Clean (fun c => decide (c = '"')) s ↔ s.head? ≠ some '"' ∧ s.getLast? ≠ some '"' := by
  constructor
  · intro h
    exact ⟨fun hfirst => absurd (h.first _ hfirst) (by decide),
      fun hlast => absurd (h.last _ hlast) (by decide)⟩
  · rintro ⟨hfirst, hlast⟩
    constructor
    · intro c hc
      rw [decide_eq_false_iff_not]
      rintro rfl
      exact hfirst hc
    · intro c hc
      rw [decide_eq_false_iff_not]
      rintro rfl
      exact hlast hc

theorem of_readDisplayName (h : readDisplayName s = some name) :
    name ≠ "" ∧ Clean isBlank name.toList ∧ ∀ c ∈ name.toList, c ∈ s := by
  unfold readDisplayName at h
  split at h
  · cases h
  · rename_i hne
    obtain rfl := Option.some.inj h
    rw [String.toList_ofList]
    refine ⟨fun hempty => hne (by simpa using hempty), clean_trim _, fun c hc => ?_⟩
    exact mem_of_mem_strip (mem_of_mem_strip (mem_of_mem_strip hc))

/-- Reading takes the quotes away that writing puts around a name, and all that
the name itself has at its ends. -/
theorem strip_writeDisplayName (name : String) :
    strip (· = '"') (trim (writeDisplayName (some name))) = strip (· = '"') name.toList := by
  have htrim : trim (writeDisplayName (some name)) = '"' :: name.toList ++ ['"'] := by
    have hblank : writeDisplayName (some name) = ('"' :: name.toList ++ ['"']) ++ [' '] := by
      simp [writeDisplayName]
    rw [hblank, trim, strip_concat (by decide)]
    exact strip_of_clean (clean_append_cons (first_cons (by decide) _) (by decide) (by simp))
  rw [htrim, strip_concat (by decide), strip_cons (by decide)]

theorem readDisplayName_write_of_clean (hne : name ≠ "") (hclean : Clean isBlank name.toList)
    (hquotes : Clean (fun c => decide (c = '"')) name.toList) :
    readDisplayName (writeDisplayName (some name)) = some name := by
  unfold readDisplayName
  rw [strip_writeDisplayName, strip_of_clean hquotes, trim_of_clean hclean]
  split
  · rename_i hnil
    exact absurd (String.toList_eq_nil_iff.mp hnil) hne
  · rw [String.ofList_toList]

theorem clean_of_readDisplayName_write
    (h : readDisplayName (writeDisplayName (some name)) = some name) :
    Clean (fun c => decide (c = '"')) name.toList := by
  unfold readDisplayName at h
  rw [strip_writeDisplayName] at h
  split at h
  · cases h
  · have hname : trim (strip (· = '"') name.toList) = name.toList := by
      rw [← String.toList_ofList (l := trim _), Option.some.inj h]
    -- a name that is not shorter than what is left of it has lost no quote
    have hkept : strip (· = '"') name.toList = name.toList := by
      refine (isInfix_strip _ _).eq_of_length_le ?_
      have hle := (isInfix_strip isBlank (strip (· = '"') name.toList)).length_le
      rwa [← trim, hname] at hle
    rw [← hkept]
    exact clean_strip _ _

/-! ## The three ways a text is read -/

theorem read_alone (hclean : Clean isBlank s) (hne : s ≠ []) (hopen : '<' ∉ s) :
    read s = readUri s := by
  unfold read
  dsimp only
  rw [trim_of_clean hclean, if_neg hne, cutFirst_eq_none_iff.mpr hopen]

theorem read_open (hclean : Clean isBlank s) (hopen : '<' ∈ s) (hclose : '>' ∉ s) :
    read s = .error (.unclosedBracket (String.ofList s)) := by
  unfold read
  dsimp only
  rw [trim_of_clean hclean, if_neg (List.ne_nil_of_mem hopen)]
  cases hcut : cutFirst '<' s with
  | none => exact absurd hopen (cutFirst_eq_none_iff.mp hcut)
  | some parts =>
      obtain ⟨before, inside⟩ := parts
      have hinside : '>' ∉ inside := by
        rw [(eq_append_of_cutFirst hcut).1] at hclose
        exact fun hmem => hclose (List.mem_append_right _ (List.mem_cons_of_mem _ hmem))
      dsimp only
      rw [cutFirst_eq_none_iff.mpr hinside]

theorem read_brackets (hclean : Clean isBlank (before ++ '<' :: (uri ++ '>' :: after)))
    (hopen : '<' ∉ before) (hclose : '>' ∉ uri) :
    read (before ++ '<' :: (uri ++ '>' :: after)) = (readUri uri).map fun a =>
      { a with displayName? := readDisplayName before, params := readParams after } := by
  unfold read
  dsimp only
  rw [trim_of_clean hclean, if_neg (by simp), cutFirst_append _ hopen]
  dsimp only
  rw [cutFirst_append _ hclose]

/-! ## Reading what is written -/

theorem write_of_brackets (h : ¬(a.displayName? = none ∧ a.params = [])) :
    a.write = writeDisplayName a.displayName? ++
      '<' :: (a.writeUri ++ '>' :: writeParams a.params) := by
  rw [write, if_neg h]
  simp

theorem write_alone (hname : a.displayName? = none) (hparams : a.params = []) :
    a.write = a.writeUri :=
  if_pos ⟨hname, hparams⟩

theorem write_ne_nil (a : Address) : a.write ≠ [] := by
  unfold write
  split
  · simp [writeUri_eq]
  · simp

namespace Legible

theorem clean_write (h : a.Legible) : Clean isBlank a.write := by
  unfold write
  split
  · exact h.clean_writeUri
  · refine clean_append_cons ?_ (by decide) ?_
    · cases a.displayName? with
      | none => exact first_cons (by decide) _
      | some name => exact first_cons (by decide) _
    · exact last_append_writeParams (s := []) (by simp) h.params_tidy

theorem read_write_alone (h : a.Legible) (hname : a.displayName? = none) (hparams : a.params = [])
    (hopen : '<' ∉ a.writeUri) : read a.write = .ok a := by
  have hclean := h.clean_write
  have hne := write_ne_nil a
  rw [write_alone hname hparams] at hclean hne ⊢
  rw [read_alone hclean hne hopen, h.readUri_writeUri, ← hname, ← hparams]

theorem read_write_open (h : a.Legible) (hname : a.displayName? = none) (hparams : a.params = [])
    (hopen : '<' ∈ a.writeUri) : read a.write = .error (.unclosedBracket a.text) := by
  have hclose : '>' ∉ a.writeUri := fun hmem => (h.closing hmem).2.2 hopen
  have hclean := h.clean_write
  rw [text]
  rw [write_alone hname hparams] at hclean ⊢
  exact read_open hclean hopen hclose

theorem read_write_brackets (h : a.Legible) (hb : ¬(a.displayName? = none ∧ a.params = [])) :
    read a.write = .ok (a.withDisplayName (readDisplayName (writeDisplayName a.displayName?))) := by
  have hclose : '>' ∉ a.writeUri := fun hmem =>
    hb ⟨(h.closing hmem).1, (h.closing hmem).2.1⟩
  have hopen : '<' ∉ writeDisplayName a.displayName? := by
    cases hname : a.displayName? with
    | none => exact List.not_mem_nil
    | some name => simp [writeDisplayName, h.name_unmarked name hname]
  have hclean := h.clean_write
  rw [write_of_brackets hb] at hclean ⊢
  rw [read_brackets hclean hopen hclose, h.readUri_writeUri, readParams_writeParams h.params_tidy]
  rfl

/-- The name comes back exactly if reading takes no quote of its own away. -/
theorem readDisplayName_write_iff (h : a.Legible) :
    readDisplayName (writeDisplayName a.displayName?) = a.displayName? ↔ a.Unquoted := by
  unfold Unquoted
  cases hname : a.displayName? with
  | none => simp [writeDisplayName, readDisplayName, trim, strip]
  | some name =>
      constructor
      · rintro hread _ ⟨⟩
        exact clean_quotes_iff.mp (clean_of_readDisplayName_write hread)
      · intro hquotes
        exact readDisplayName_write_of_clean (h.name_ne name hname) (h.name_clean name hname)
          (clean_quotes_iff.mpr (hquotes name rfl))

end Legible

/-! ## Reading back -/

theorem legible_alone (h : readUri s = .ok a) (hopen : '<' ∉ s) : a.Legible := by
  obtain ⟨hname, hparams⟩ := alone_of_readUri h
  have hwritten : '<' ∉ a.writeUri := fun hmem =>
    hopen (mem_of_mem_writeUri h hmem (by decide) (by decide))
  exact {
    toTidy := tidy_of_readUri h
    name_ne := by simp [hname]
    name_clean := by simp [hname]
    name_unmarked := by simp [hname]
    params_tidy := by simp [hparams]
    closing := fun _ => ⟨hname, hparams, hwritten⟩ }

theorem legible_in_brackets (h : readUri uri = .ok a) (hopen : '<' ∉ before) (hclose : '>' ∉ uri)
    (after : List Char) :
    Legible { a with displayName? := readDisplayName before, params := readParams after } where
  toTidy := (tidy_of_readUri h).outside _ _
  name_ne _ hname := (of_readDisplayName hname).1
  name_clean _ hname := (of_readDisplayName hname).2.1
  name_unmarked _ hname hmem := hopen ((of_readDisplayName hname).2.2 _ hmem)
  params_tidy _ hp := tidy_of_mem_readParams hp
  closing hmem := absurd (mem_of_mem_writeUri h hmem (by decide) (by decide)) hclose

theorem legible_of_read (h : read s = .ok a) : a.Legible := by
  unfold read at h
  dsimp only at h
  split at h
  · cases h
  · split at h
    · rename_i hcut
      exact legible_alone h (cutFirst_eq_none_iff.mp hcut)
    · rename_i before inside hcut
      split at h
      · cases h
      · rename_i uri after hclosed
        cases hread : readUri uri with
        | error e =>
            rw [hread] at h
            cases h
        | ok b =>
            rw [hread] at h
            obtain rfl := Except.ok.inj h
            exact legible_in_brackets hread (eq_append_of_cutFirst hcut).2
              (eq_append_of_cutFirst hclosed).2 after

theorem withDisplayName_eq_self_iff {name? : Option String} :
    a.withDisplayName name? = a ↔ name? = a.displayName? := by
  constructor
  · intro h
    rw [← h]
    rfl
  · rintro rfl
    rfl

theorem parse_text (a : Address) : parse a.text = read a.write := by
  rw [parse, text, String.toList_ofList]

/-- **What was read is read back.** An address that was read is read back from
what is written of it exactly if its display name has no quote at its ends and
its URI, where it stands alone, no opening bracket. With such a bracket the text
is refused, and with such a quote the display name alone comes out different. -/
theorem parsed_address_written_back (s : String) (a : Address) (h : parse s = .ok a) :
    (parse a.text = .ok a ↔ a.Unquoted ∧ a.Delimited) ∧
      (¬a.Delimited → parse a.text = .error (.unclosedBracket a.text)) ∧
      (¬a.Unquoted →
        ∃ name?, name? ≠ a.displayName? ∧ parse a.text = .ok (a.withDisplayName name?)) := by
  have hlegible : a.Legible := legible_of_read h
  rw [parse_text]
  by_cases hb : a.displayName? = none ∧ a.params = []
  · obtain ⟨hname, hparams⟩ := hb
    have hunquoted : a.Unquoted := by
      rw [Unquoted, hname]
      exact nofun
    have hdelimited : a.Delimited ↔ '<' ∉ a.writeUri := by
      simp [Delimited, hname, hparams, uriText]
    by_cases hopen : '<' ∈ a.writeUri
    · have hread := hlegible.read_write_open hname hparams hopen
      refine ⟨?_, fun _ => hread, fun hquoted => absurd hunquoted hquoted⟩
      rw [hread, hdelimited]
      simp [hopen]
    · have hread := hlegible.read_write_alone hname hparams hopen
      refine ⟨?_, fun hbare => absurd (hdelimited.mpr hopen) hbare,
        fun hquoted => absurd hunquoted hquoted⟩
      exact iff_of_true hread ⟨hunquoted, hdelimited.mpr hopen⟩
  · have hdelimited : a.Delimited := by
      rcases not_and_or.mp hb with hname | hparams
      · exact Or.inl hname
      · exact Or.inr (Or.inl hparams)
    have hread := hlegible.read_write_brackets hb
    have hsame := hlegible.readDisplayName_write_iff
    refine ⟨?_, fun hbare => absurd hdelimited hbare,
      fun hquoted => ⟨_, mt hsame.mp hquoted, hread⟩⟩
    rw [hread, Except.ok.injEq, withDisplayName_eq_self_iff, hsame]
    exact (and_iff_left hdelimited).symm

/-- The bracket in this user does no harm inside of brackets, and an empty name
and empty values come back too. -/
theorem parsed_address_written_back_in_brackets :
    parse "< SIPS :a<b@:@[::1]junk:5 ;x= ; =; > tag ; ;" = .ok
        { scheme := .sips, user? := some "a<b@:", host := "[::1]",
          uriParams := [⟨"x", some ""⟩, ⟨"", some ""⟩], params := [⟨"tag", none⟩] } ∧
      parse "<sips:a<b@:@[::1];x=;=>;tag" = .ok
        { scheme := .sips, user? := some "a<b@:", host := "[::1]",
          uriParams := [⟨"x", some ""⟩, ⟨"", some ""⟩], params := [⟨"tag", none⟩] } := by
  have hparse : parse "< SIPS :a<b@:@[::1]junk:5 ;x= ; =; > tag ; ;" = .ok
      { scheme := .sips, user? := some "a<b@:", host := "[::1]",
        uriParams := [⟨"x", some ""⟩, ⟨"", some ""⟩], params := [⟨"tag", none⟩] } := by
    decide +kernel
  exact ⟨hparse, (parsed_address_written_back _ _ hparse).1.mpr
    ⟨nofun, Or.inr (Or.inl (by decide))⟩⟩

-- what is lost: here the bracket would stand alone, there the inner quotes stand at the ends
example : (parse "<sip:<@h>").map text = .ok "sip:<@h" := by decide +kernel

example : (parse "\"\" \"Ann\" \"\" <sip:h>").map text = .ok "\"\"Ann\"\" <sip:h>" := by
  decide +kernel

end Switchboard.Address
