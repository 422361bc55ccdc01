import Switchboard.Proofs.Address.Params

/-!
# URIs written and read

A URI is taken apart from the outside: scheme at the first colon, parameters at
the first semicolon, user at the last at sign, port at the last colon or behind
the host's bracket. What reading gives is tidy, that is, no part holds a mark
that would take it apart elsewhere, and a tidy address reads back from its URI
up to what stands outside of it.
-/

namespace Switchboard.Address

open Text

variable {a : Address} {s uri host : List Char} {user? : Option (List Char)}
  {port? : Option UInt16} {c : Char}

/-! ## Host and port -/

/-- Hosts that reading gives, with the ports that may follow them. -/
inductive HostForm : List Char → Option UInt16 → Prop
  | bracketed {inner : List Char} {port? : Option UInt16} (closed : ']' ∉ inner) :
      HostForm ('[' :: inner ++ [']']) port?
  | bare {host : List Char} (clean : Clean isBlank host) (unmarked : ':' ∉ host)
      (unopened : host.head? ≠ some '[') : HostForm host none
  /-- Colons are in order here, since the last one leads to the port. -/
  | ported {host : List Char} {port : UInt16} (first : ∀ c ∈ host.head?, isBlank c = false)
      (unopened : host.head? ≠ some '[') : HostForm host (some port)

theorem mem_writePort (h : c ∈ writePort port?) : c = ':' ∨ c.isDigit = true := by
  cases port? with
  | none => exact absurd h List.not_mem_nil
  | some port => exact (List.mem_cons.mp h).imp_right isDigit_of_mem_decimal

theorem last_writePort : ∀ c ∈ (writePort port?).getLast?, isBlank c = false := by
  intro c hc
  rcases mem_writePort (List.mem_of_getLast? hc) with rfl | hdigit
  · decide
  · exact isBlank_of_isDigit hdigit

theorem readPort_decimal (port : UInt16) : readPort (decimal port.toNat) = .ok port := by
  rw [readPort, natural?_decimal port.toNat_lt]
  simp

theorem HostForm.clean (h : HostForm host port?) : Clean isBlank (host ++ writePort port?) := by
  cases h with
  | @bracketed inner =>
      rw [List.append_assoc, List.singleton_append]
      exact clean_append_cons (first_cons (by decide) inner) (by decide) last_writePort
  | bare clean =>
      rw [writePort, List.append_nil]
      exact clean
  | ported first =>
      exact clean_append_cons first (by decide) fun c hc =>
        isBlank_of_isDigit (isDigit_of_mem_decimal (List.mem_of_getLast? hc))

theorem readHostPort_of_unopened (h : (trim s).head? ≠ some '[') :
    readHostPort s = match cutLast ':' (trim s) with
      | some (host, port) => (readPort port).map fun port => (host, some port)
      | none => .ok (trim s, none) := by
  unfold readHostPort
  dsimp only
  split
  · rename_i inner hopen
    rw [hopen] at h
    exact absurd rfl h
  · rfl

theorem readHostPort_write (h : HostForm host port?) :
    readHostPort (host ++ writePort port?) = .ok (host, port?) := by
  have htrim := trim_of_clean h.clean
  cases h with
  | bracketed closed =>
      rw [List.append_assoc, List.singleton_append, List.cons_append] at htrim ⊢
      rw [readHostPort, htrim]
      cases port? with
      | none => simp [writePort, cutFirst_append _ closed]
      | some port => simp [writePort, cutFirst_append _ closed, readPort_decimal, Except.map]
  | bare clean unmarked unopened =>
      rw [writePort, List.append_nil] at htrim ⊢
      rw [readHostPort_of_unopened (by rwa [htrim]), htrim, cutLast_eq_none_iff.mpr unmarked]
  | @ported host port first unopened =>
      have hopen : (host ++ writePort (some port)).head? ≠ some '[' := by
        cases host with
        | nil => simp [writePort]
        | cons d rest => exact unopened
      have hdigits : ':' ∉ decimal port.toNat := fun hmem =>
        absurd (isDigit_of_mem_decimal hmem) (by decide)
      rw [readHostPort_of_unopened (by rwa [htrim]), htrim, writePort,
        cutLast_append host hdigits]
      simp [readPort_decimal, Except.map]

theorem eq_of_map_readPort {host' port : List Char}
    (h : (readPort port).map (fun n => (host', some n)) = .ok (host, port?)) :
    host' = host ∧ ∃ n, some n = port? := by
  cases hport : readPort port with
  | error e =>
      rw [hport] at h
      cases h
  | ok n =>
      rw [hport] at h
      obtain ⟨hhost, hn⟩ := Prod.mk.inj (Except.ok.inj h)
      exact ⟨hhost, n, hn⟩

theorem of_readHostPort_of_open {inner : List Char} (hopen : trim s = '[' :: inner)
    (h : readHostPort s = .ok (host, port?)) : HostForm host port? ∧ ∀ c ∈ host, c ∈ s := by
  have hkept : ∀ c ∈ '[' :: inner, c ∈ s := by
    rw [← hopen]
    exact fun c hc => mem_of_mem_strip hc
  -- the closing bracket is written back, whatever stood behind it
  have hform : ∀ before after, cutFirst ']' inner = some (before, after) →
      HostForm ('[' :: before ++ [']']) port? ∧ ∀ c ∈ '[' :: before ++ [']'], c ∈ s := by
    intro before after hcut
    obtain ⟨rfl, hmark⟩ := eq_append_of_cutFirst hcut
    refine ⟨.bracketed hmark, fun c hc => hkept c ?_⟩
    simp only [List.cons_append, List.mem_cons, List.mem_append] at hc ⊢
    tauto
  simp only [readHostPort, hopen] at h
  split at h
  · cases h
  · rename_i before port hcut
    obtain ⟨rfl, -⟩ := eq_of_map_readPort h
    exact hform before _ hcut
  · rename_i before after _ hcut
    obtain ⟨rfl, -⟩ := Prod.mk.inj (Except.ok.inj h)
    exact hform before after hcut

theorem of_readHostPort_of_unopened (hopen : (trim s).head? ≠ some '[')
    (h : readHostPort s = .ok (host, port?)) : HostForm host port? ∧ ∀ c ∈ host, c ∈ s := by
  have hclean := clean_trim s
  have hkept : ∀ c ∈ trim s, c ∈ s := fun c hc => mem_of_mem_strip hc
  rw [readHostPort_of_unopened hopen] at h
  split at h
  · rename_i before port hcut
    obtain ⟨hsplit, -⟩ := eq_append_of_cutLast hcut
    obtain ⟨rfl, n, rfl⟩ := eq_of_map_readPort h
    rw [hsplit] at hclean hkept hopen
    refine ⟨.ported ?_ ?_, fun c hc => hkept c (List.mem_append_left _ hc)⟩
    · intro c hc
      exact hclean.first c (List.mem_head?_append_of_mem_head? hc)
    · intro hhead
      exact hopen (List.mem_head?_append_of_mem_head? hhead)
  · rename_i hcut
    obtain ⟨rfl, rfl⟩ := Prod.mk.inj (Except.ok.inj h)
    exact ⟨.bare hclean (cutLast_eq_none_iff.mp hcut) hopen, hkept⟩

/-- The host has one of the forms, and nothing in it is made up. -/
theorem of_readHostPort (h : readHostPort s = .ok (host, port?)) :
    HostForm host port? ∧ ∀ c ∈ host, c ∈ s := by
  by_cases hopen : (trim s).head? = some '['
  · obtain ⟨inner, hinner⟩ := List.head?_eq_some_iff.mp hopen
    exact of_readHostPort_of_open hinner h
  · exact of_readHostPort_of_unopened hopen h

/-! ## User -/

theorem splitUser_write {user? : Option String} (hne : user? ≠ some "") (h : '@' ∉ s) :
    splitUser (writeUser user? ++ s) = (user?.map String.toList, s) := by
  unfold splitUser
  cases user? with
  | none =>
      rw [writeUser, List.nil_append, cutLast_eq_none_iff.mpr h]
      rfl
  | some user =>
      have huser : user.toList ≠ [] := by simpa using hne
      rw [writeUser, List.append_assoc, List.singleton_append, cutLast_append _ h]
      cases hchars : user.toList with
      | nil => exact absurd hchars huser
      | cons d rest => simp [hchars]

/-- An empty user is not written again, all else is. -/
theorem of_splitUser (h : splitUser s = (user?, host)) :
    user? ≠ some [] ∧ '@' ∉ host ∧ writeUser (user?.map String.ofList) ++ host <:+ s := by
  unfold splitUser at h
  split at h
  · rename_i rest hcut
    obtain ⟨rfl, hmark⟩ := eq_append_of_cutLast hcut
    obtain ⟨rfl, rfl⟩ := Prod.mk.inj h
    exact ⟨nofun, hmark, List.suffix_cons '@' rest⟩
  · rename_i user rest hne hcut
    obtain ⟨rfl, hmark⟩ := eq_append_of_cutLast hcut
    obtain ⟨rfl, rfl⟩ := Prod.mk.inj h
    exact ⟨fun hnil => hne (Option.some.inj hnil), hmark, by simp [writeUser]⟩
  · rename_i hcut
    obtain ⟨rfl, rfl⟩ := Prod.mk.inj h
    exact ⟨nofun, cutLast_eq_none_iff.mp hcut, List.suffix_refl s⟩

/-! ## The whole URI -/

/-- An address whose URI is read back from what is written of it. -/
structure Tidy (a : Address) : Prop where
  user_ne : a.user? ≠ some ""
  user_unmarked : ∀ user ∈ a.user?, ';' ∉ user.toList
  host_ne : a.host ≠ ""
  host_form : HostForm a.host.toList a.port?
  host_unmarked : '@' ∉ a.host.toList ∧ ';' ∉ a.host.toList
  uriParams : ∀ p ∈ a.uriParams, TidyParam p

/-- It is a matter of the URI alone. -/
theorem Tidy.outside (h : a.Tidy) (displayName? : Option String) (params : List Param) :
    Tidy { a with displayName?, params } :=
  { h with }

/-- What is written between scheme and parameters. -/
def authority (a : Address) : List Char :=
  writeUser a.user? ++ (a.host.toList ++ writePort a.port?)

theorem writeUri_eq (a : Address) : a.writeUri =
    a.scheme.name.toList ++ ':' :: (a.authority ++ writeParams a.uriParams) := by
  simp [writeUri, authority]

theorem scheme_plain {scheme : Scheme} (h : c ∈ scheme.name.toList) :
    isBlank c = false ∧ c.isAlphanum = true := by
  have hall : (scheme.name.toList.all fun c => !isBlank c && c.isAlphanum) = true := by
    cases scheme <;> decide
  simpa using List.all_eq_true.mp hall c h

/-- Parameters begin at the first semicolon. -/
theorem cut_writeParams (h : ';' ∉ s) (ps : List Param) :
    (s ++ writeParams ps).takeWhile (· ≠ ';') = s ∧
      (s ++ writeParams ps).dropWhile (· ≠ ';') = writeParams ps := by
  have hunmarked : ∀ c ∈ s, decide (c ≠ ';') = true := by
    intro c hc
    rw [decide_eq_true_eq]
    rintro rfl
    exact h hc
  rw [List.takeWhile_append_of_pos hunmarked, List.dropWhile_append_of_pos hunmarked]
  cases ps with
  | nil => simp [writeParams]
  | cons p ps => simp [writeParams_eq]

namespace Tidy

theorem hostPort_unmarked (h : a.Tidy) (hc : c = '@' ∨ c = ';') :
    c ∉ a.host.toList ++ writePort a.port? := by
  rw [List.mem_append, not_or]
  constructor
  · rcases hc with rfl | rfl
    · exact h.host_unmarked.1
    · exact h.host_unmarked.2
  · intro hmem
    rcases mem_writePort hmem with rfl | hdigit
    · exact absurd hc (by decide)
    · rcases hc with rfl | rfl <;> exact absurd hdigit (by decide)

theorem authority_unmarked (h : a.Tidy) : ';' ∉ a.authority := by
  rw [authority, List.mem_append, not_or]
  refine ⟨?_, h.hostPort_unmarked (Or.inr rfl)⟩
  cases huser : a.user? with
  | none => exact List.not_mem_nil
  | some user => simp [writeUser, h.user_unmarked user huser]

theorem clean_writeUri (h : a.Tidy) : Clean isBlank a.writeUri := by
  rw [writeUri_eq]
  refine clean_append_cons ?_ (by decide) (last_append_writeParams ?_ h.uriParams)
  · exact (clean_of_forall fun c hc => (scheme_plain hc).1).first
  · have hne : a.host.toList ++ writePort a.port? ≠ [] := by simp [h.host_ne]
    rw [authority, List.getLast?_append_of_ne_nil _ hne]
    exact h.host_form.clean.last

/-- Each cut falls where the parts were joined. -/
theorem readUri_writeUri (h : a.Tidy) :
    readUri a.writeUri = .ok { a with displayName? := none, params := [] } := by
  have hscheme : ':' ∉ a.scheme.name.toList := by
    cases a.scheme <;> decide
  have hlower : lower (trim a.scheme.name.toList) = a.scheme.name.toList := by
    cases a.scheme <;> decide
  obtain ⟨htake, hdrop⟩ := cut_writeParams h.authority_unmarked a.uriParams
  rw [writeUri_eq, readUri, cutFirst_append _ hscheme]
  simp only [hlower, Scheme.ofName?_name, htake, hdrop, readParams_writeParams h.uriParams]
  rw [authority, splitUser_write h.user_ne (h.hostPort_unmarked (Or.inl rfl))]
  simp only [readHostPort_write h.host_form]
  split
  · rename_i hread
    cases hread
  · rename_i hread
    obtain ⟨hnil, -⟩ := Prod.mk.inj (Except.ok.inj hread)
    exact absurd (String.toList_eq_nil_iff.mp hnil) h.host_ne
  · rename_i hread
    obtain ⟨rfl, rfl⟩ := Prod.mk.inj (Except.ok.inj hread)
    simp

end Tidy

/-- All that goes into an address when its URI is read. -/
theorem readUri_cases (h : readUri uri = .ok a) :
    ∃ name rest scheme user? hostPort host port?,
      uri = name ++ ':' :: rest ∧
      splitUser (rest.takeWhile (· ≠ ';')) = (user?, hostPort) ∧
      readHostPort hostPort = .ok (host, port?) ∧ host ≠ [] ∧
      a = { scheme, user? := user?.map String.ofList, host := String.ofList host, port?,
            uriParams := readParams (rest.dropWhile (· ≠ ';')) } := by
  unfold readUri at h
  split at h
  · cases h
  · rename_i name rest hcut
    obtain ⟨rfl, -⟩ := eq_append_of_cutFirst hcut
    dsimp only at h
    split at h
    · cases h
    · rename_i scheme _
      split at h
      · cases h
      · cases h
      · rename_i host port? hne hread
        exact ⟨name, rest, scheme, _, _, host, port?, rfl, rfl, hread, fun hnil => hne hnil,
          (Except.ok.inj h).symm⟩

theorem tidy_of_readUri (h : readUri uri = .ok a) : a.Tidy := by
  obtain ⟨name, rest, scheme, user?, hostPort, host, port?, rfl, hsplit, hread, hne, rfl⟩ :=
    readUri_cases h
  obtain ⟨huser, hat, hsuffix⟩ := of_splitUser hsplit
  obtain ⟨hform, hkept⟩ := of_readHostPort hread
  have hauthority : ';' ∉ rest.takeWhile (· ≠ ';') := by
    intro hmem
    simpa using List.mem_takeWhile_imp hmem
  have hwritten : ';' ∉ writeUser (user?.map String.ofList) ++ hostPort :=
    fun hmem => hauthority (hsuffix.subset hmem)
  rw [List.mem_append, not_or] at hwritten
  exact {
    user_ne := by
      cases user? with
      | none => exact nofun
      | some user => simpa using huser
    user_unmarked := by
      intro user hmem hsemi
      have hsome : user?.map String.ofList = some user := hmem
      rw [hsome] at hwritten
      exact hwritten.1 (List.mem_append_left _ hsemi)
    host_ne := by simpa using hne
    host_form := by simpa using hform
    host_unmarked := by
      rw [String.toList_ofList]
      exact ⟨fun hmem => hat (hkept _ hmem), fun hmem => hwritten.2 (hkept _ hmem)⟩
    uriParams := fun p hp => tidy_of_mem_readParams hp }

/-- What stands outside of a URI is not read from it. -/
theorem alone_of_readUri (h : readUri uri = .ok a) : a.displayName? = none ∧ a.params = [] := by
  obtain ⟨name, rest, scheme, user?, hostPort, host, port?, -, -, -, -, rfl⟩ := readUri_cases h
  exact ⟨rfl, rfl⟩

/-- Writing a URI again adds semicolons, letters and digits at most. -/
theorem mem_of_mem_writeUri (h : readUri uri = .ok a) (hc : c ∈ a.writeUri)
    (hmark : c ≠ ';') (hword : c.isAlphanum = false) : c ∈ uri := by
  obtain ⟨name, rest, scheme, user?, hostPort, host, port?, rfl, hsplit, hread, -, rfl⟩ :=
    readUri_cases h
  obtain ⟨-, -, hsuffix⟩ := of_splitUser hsplit
  obtain ⟨-, hkept⟩ := of_readHostPort hread
  have hrest : ∀ d ∈ writeUser (user?.map String.ofList) ++ hostPort, d ∈ rest :=
    fun d hd => (List.takeWhile_subset _) (hsuffix.subset hd)
  rw [writeUri_eq, authority] at hc
  simp only [List.mem_append, List.mem_cons, String.toList_ofList] at hc hrest ⊢
  rcases hc with hscheme | hcolon | (huser | hhost | hport) | hparams
  · rw [(scheme_plain hscheme).2] at hword
    cases hword
  · exact Or.inr (Or.inl hcolon)
  · exact Or.inr (Or.inr (hrest c (Or.inl huser)))
  · exact Or.inr (Or.inr (hrest c (Or.inr (hkept c hhost))))
  · refine Or.inr (Or.inl ((mem_writePort hport).resolve_right fun hdigit => ?_))
    simp [Char.isAlphanum, hdigit] at hword
  · have hdropped := (mem_writeParams_readParams hparams).resolve_left hmark
    exact Or.inr (Or.inr (List.dropWhile_subset _ hdropped))

end Switchboard.Address
