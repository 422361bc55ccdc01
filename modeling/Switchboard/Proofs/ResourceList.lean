import Switchboard.Proofs.Address.ReadBack
import Switchboard.Proofs.Markup.Element
import Switchboard.Proofs.Markup.Reference
import Switchboard.ResourceList

/-!
# Resource lists read back

A list is a markup text around address texts, and both have characters of their
own. References take care of those of the markup, so every URI comes out of the
list as it was put in, and nothing of one entry runs into another. What the
address text itself cannot say is lost: display names and outer parameters are
not written, and a URI with an opening bracket is no address where it stands
alone.
-/

namespace Switchboard

namespace Address

variable {a : Address}

/-- The address that a URI alone can tell. -/
def bare (a : Address) : Address :=
  { a with displayName? := none, params := [] }

/-- A URI with an opening bracket has no closing one, so it is refused. -/
theorem Legible.read_writeUri (h : a.Legible) :
    (read a.writeUri).toOption = if '<' ∈ a.writeUri then none else some a.bare := by
  have hne : a.writeUri ≠ [] := by simp [writeUri_eq]
  by_cases hopen : '<' ∈ a.writeUri
  · have hclose : '>' ∉ a.writeUri := by
      intro hmem
      exact (h.closing hmem).2.2 hopen
    rw [if_pos hopen, read_open h.clean_writeUri hopen hclose]
    rfl
  · rw [if_neg hopen, read_alone h.clean_writeUri hne hopen, h.readUri_writeUri]
    rfl

end Address

namespace ResourceList

open Markup

variable {addresses : List Address} {rest : List Char}

/-! ## Entries -/

/-- What an entry has behind its name. -/
def entryRest (a : Address) : List Char :=
  ' ' :: writeAttribute "uri".toList (escape a.writeUri)

/-- The brackets and quotes of a URI are written as references, so that the tag
ends at its own bracket. -/
theorem readMarkup_entry (a : Address) (rest : List Char) :
    readMarkup ("entry".toList ++ entryRest a ++ '/' :: '>' :: rest) =
      some (some (.empty "entry".toList (entryRest a)), rest) := by
  have hplain : ∀ c ∈ "entry uri=".toList, c ≠ '>' ∧ c ≠ '"' ∧ c ≠ '\'' :=
    forall_mem_of_all (by decide)
  have hquote : '"' ∉ escape a.writeUri := not_mem_escape rfl (by decide)
  have hend : readInside none ('/' :: '>' :: rest) = some (['/'], rest) := rfl
  have hvalue := readInside_quoted hquote ('/' :: '>' :: rest)
  rw [hend] at hvalue
  have hinside : readInside none ("entry".toList ++ entryRest a ++ '/' :: '>' :: rest) =
      some ("entry".toList ++ entryRest a ++ ['/'], rest) := by
    have hread := readInside_plain hplain ('"' :: (escape a.writeUri ++ '"' :: '/' :: '>' :: rest))
    rw [readInside] at hread
    simpa [entryRest, writeAttribute, hvalue] using hread
  have hname : ∀ c ∈ "entry".toList, isBlank c = false := forall_mem_of_all (by decide)
  have htag := ofInside_slash hname (writeAttribute "uri".toList (escape a.writeUri))
  have hstart : "entry".toList ++ entryRest a ++ '/' :: '>' :: rest =
      'e' :: ("ntry".toList ++ entryRest a ++ '/' :: '>' :: rest) := by simp
  rw [hstart, readMarkup_element (by decide), ← hstart, hinside]
  exact congrArg (fun tag => some (some tag, rest)) htag

theorem writeEntry_eq (a : Address) :
    writeEntry a = '<' :: ("entry".toList ++ entryRest a ++ ['/', '>']) := by
  have hstart : "<entry uri=\"".toList =
      '<' :: "entry".toList ++ ' ' :: "uri".toList ++ ['=', '"'] := rfl
  have hend : "\"/>".toList = ['"', '/', '>'] := rfl
  unfold writeEntry entryRest writeAttribute
  rw [hstart, hend]
  simp only [List.append_assoc, List.cons_append, List.nil_append]

theorem scan_entries (addresses : List Address) (rest : List Char) :
    scan (addresses.flatMap writeEntry ++ rest) =
      (scan rest).map (addresses.map (fun a => Tag.empty "entry".toList (entryRest a)) ++ ·) := by
  induction addresses with
  | nil => exact Option.map_id'.symm
  | cons a addresses ih =>
      rw [List.flatMap_cons, List.append_assoc, writeEntry_eq, List.cons_append,
        List.append_assoc _ ['/', '>']]
      have hentry := readMarkup_entry a (addresses.flatMap writeEntry ++ rest)
      refine (scan_of_readMarkup hentry).trans ?_
      rw [ih]
      cases scan rest with
      | none => rfl
      | some tags => rfl

/-- The values of an entry are its URI and nothing else. -/
theorem uris?_entry (a : Address) :
    (attributes? (entryRest a)).bind uris? = some [a.writeUri] := by
  have hname : ∀ c ∈ "uri".toList, isNameChar c = true := forall_mem_of_all (by decide)
  have hquote : '"' ∉ escape a.writeUri := not_mem_escape rfl (by decide)
  have hlocal : localName "uri".toList = "uri".toList := by decide
  rw [entryRest, attributes?_write (by decide) hname hquote, Option.bind_some, uris?]
  simp only [List.filter_cons, hlocal, decide_true, if_true, List.filter_nil, List.mapM_cons,
    List.mapM_nil, unescape_escape]
  rfl

/-! ## Whole lists -/

/-- Tags of a list with these entries. -/
def tagsOf (addresses : List Address) : List Tag :=
  .start "resource-lists".toList " xmlns=\"urn:ietf:params:xml:ns:resource-lists\"".toList ::
    .start "list".toList [] ::
    (addresses.map (fun a => Tag.empty "entry".toList (entryRest a)) ++
      [.close "list".toList, .close "resource-lists".toList])

theorem scan_opening (rest : List Char) :
    scan (opening ++ rest) =
      (scan rest).map fun tags =>
        .start "resource-lists".toList " xmlns=\"urn:ietf:params:xml:ns:resource-lists\"".toList ::
          .start "list".toList [] :: tags := by
  have hdeclaration (rest : List Char) :
      readMarkup ("?xml version=\"1.0\" encoding=\"UTF-8\"?>".toList ++ rest) = some (none, rest) :=
    rfl
  have hlists (rest : List Char) :
      readMarkup
          ("resource-lists xmlns=\"urn:ietf:params:xml:ns:resource-lists\">".toList ++ rest) =
        some (some (.start "resource-lists".toList
          " xmlns=\"urn:ietf:params:xml:ns:resource-lists\"".toList), rest) :=
    rfl
  have hlist (rest : List Char) :
      readMarkup ("list>".toList ++ rest) = some (some (.start "list".toList []), rest) :=
    rfl
  have hopening : opening ++ rest =
      '<' :: ("?xml version=\"1.0\" encoding=\"UTF-8\"?>".toList ++
        '<' :: ("resource-lists xmlns=\"urn:ietf:params:xml:ns:resource-lists\">".toList ++
          '<' :: ("list>".toList ++ rest))) :=
    rfl
  rw [hopening, scan_of_readMarkup (hdeclaration _), scan_of_readMarkup (hlists _),
    scan_of_readMarkup (hlist _)]
  cases scan rest with
  | none => rfl
  | some tags => simp

theorem scan_closing :
    scan closing = some [.close "list".toList, .close "resource-lists".toList] := by
  have hlist (rest : List Char) :
      readMarkup ("/list>".toList ++ rest) = some (some (.close "list".toList), rest) :=
    rfl
  have hlists : readMarkup "/resource-lists>".toList =
      some (some (.close "resource-lists".toList), []) :=
    rfl
  have hclosing : closing = '<' :: ("/list>".toList ++ '<' :: "/resource-lists>".toList) :=
    rfl
  rw [hclosing, scan_of_readMarkup (hlist _), scan_of_readMarkup hlists, scan]
  rfl

theorem tags?_write (addresses : List Address) :
    tags? (write addresses) = some (tagsOf addresses) := by
  have hscan : scan (write addresses) = some (tagsOf addresses) := by
    rw [write, List.append_assoc, scan_opening, scan_entries, scan_closing]
    rfl
  have hnested : nested [] (tagsOf addresses) = true := by
    unfold tagsOf
    rw [nested, nested, nested_append_empties]
    · decide
    · intro tag htag
      obtain ⟨a, -, rfl⟩ := List.mem_map.mp htag
      exact ⟨_, _, rfl⟩
  rw [tags?, hscan, Option.bind_some, if_pos hnested]

theorem entryAttributes?_tagsOf (addresses : List Address) :
    (tagsOf addresses).filterMap entryAttributes? = addresses.map entryRest := by
  have hlists : localName "resource-lists".toList ≠ "entry".toList := by decide
  have hlist : localName "list".toList ≠ "entry".toList := by decide
  have hentry : localName "entry".toList = "entry".toList := by decide
  simp only [tagsOf, List.filterMap_cons, entryAttributes?, hlists, hlist, if_false,
    List.filterMap_append, List.filterMap_map, Function.comp_def, hentry, if_true,
    List.filterMap_nil, List.append_nil]
  exact congrFun List.filterMap_eq_map addresses

theorem values?_tagsOf (addresses : List Address) :
    values? (tagsOf addresses) = some (addresses.map (·.writeUri)) := by
  have huris : ((fun rest => (attributes? rest).bind uris?) ∘ entryRest) =
      fun a => pure [a.writeUri] := funext uris?_entry
  rw [values?, entryAttributes?_tagsOf, List.mapM_map, huris, List.mapM_pure]
  show some (addresses.map fun a => [a.writeUri]).flatten = _
  rw [← List.flatMap_def]
  exact congrArg some (List.map_eq_flatMap).symm

/-- **A list is read back, entry by entry.** Only an entry whose URI has an
opening bracket is passed over. -/
theorem written_list_read_back (addresses : List Address)
    (h : ∀ a ∈ addresses, ∃ s, Address.parse s = .ok a) :
    parse? (format addresses) =
        some ((addresses.filter fun a => '<' ∉ a.uriText.toList).map Address.bare) ∧
      ((∀ a ∈ addresses, '<' ∉ a.uriText.toList) →
        parse? (format addresses) = some (addresses.map Address.bare)) := by
  have hread : ∀ a ∈ addresses, (Address.read a.writeUri).toOption =
      if '<' ∉ a.uriText.toList then some a.bare else none := by
    intro a ha
    obtain ⟨s, hs⟩ := h a ha
    have hlegible : a.Legible := Address.legible_of_read hs
    rw [hlegible.read_writeUri, Address.uriText, String.toList_ofList, ite_not]
  have hvalues : parse? (format addresses) =
      some (addresses.filterMap fun a => (Address.read a.writeUri).toOption) := by
    rw [parse?, format, String.toList_ofList, tags?_write, Option.bind_some, values?_tagsOf,
      Option.map_some, List.filterMap_map]
    rfl
  have hkept : parse? (format addresses) =
      some ((addresses.filter fun a => '<' ∉ a.uriText.toList).map Address.bare) := by
    rw [hvalues, List.filterMap_congr hread, ← List.filterMap_eq_map, List.filterMap_filter]
    simp only [decide_eq_true_eq, Function.comp_apply]
  refine ⟨hkept, ?_⟩
  intro hplain
  rw [hkept, List.filter_eq_self.mpr]
  intro a ha
  exact decide_eq_true (hplain a ha)

/-- The marks come back, and the same entry twice; the display name and the tag do
not, nor does the entry with the opening bracket. -/
theorem written_list_read_back_marks :
    parse? (format
        [{ user? := some "&lt\"'>", host := "h", uriParams := [⟨"&", some "'"⟩] },
          { displayName? := some "Ann", user? := some "a<b", host := "h",
            params := [⟨"tag", none⟩] },
          { displayName? := some "Bob", user? := none, host := "[::1]", port? := some 5061,
            params := [⟨"tag", none⟩] },
          { user? := some "&lt\"'>", host := "h", uriParams := [⟨"&", some "'"⟩] }]) =
      some
        [{ user? := some "&lt\"'>", host := "h", uriParams := [⟨"&", some "'"⟩] },
          { user? := none, host := "[::1]", port? := some 5061 },
          { user? := some "&lt\"'>", host := "h", uriParams := [⟨"&", some "'"⟩] }] := by
  refine ((written_list_read_back _ ?_).1).trans (by decide +kernel)
  intro a ha
  simp only [List.mem_cons, List.not_mem_nil, or_false] at ha
  rcases ha with rfl | rfl | rfl | rfl
  · exact ⟨"sip:&lt\"'>@h;&='", by decide +kernel⟩
  · exact ⟨"Ann <sip:a<b@h>;tag", by decide +kernel⟩
  · exact ⟨"Bob <sip:[::1]:5061>;tag", by decide +kernel⟩
  · exact ⟨"sip:&lt\"'>@h;&='", by decide +kernel⟩

end ResourceList

end Switchboard
