import Switchboard.Proofs.Srtp.Suite

/-!
# Strict and lenient lists

Both readings of a list cut it into the same tokens, and they differ only where
some token is no suite. The lenient one goes on without it, and the strict one
stops there, so its fault is that of the first such token. A list that was
written holds no such token, and either reading finds in it what was written.
-/

namespace Switchboard.Srtp.Suite

open Text

variable {tokens before after : List (List Char)} {bad : List Char} {e : Error}

/-- What these tokens name, each suite once and in the order in which it first
comes; tokens that are no suite name nothing. -/
def named (tokens : List (List Char)) : List Suite :=
  (tokens.filterMap fun token => (read token).toOption).eraseDups

def Readable (token : List Char) : Prop :=
  ∃ suite, read token = .ok suite

/-- The first token that is no suite is at fault. -/
def FirstFault (tokens : List (List Char)) (e : Error) : Prop :=
  ∃ before bad after, tokens = before ++ bad :: after ∧
    (∀ token ∈ before, Readable token) ∧ read bad = .error e

/-! ## One token after the other -/

theorem mapM_read_of_readable (h : ∀ token ∈ tokens, Readable token) :
    tokens.mapM read = .ok (tokens.filterMap fun token => (read token).toOption) := by
  induction tokens with
  | nil => rfl
  | cons token tokens ih =>
      obtain ⟨⟨suite, hsuite⟩, htokens⟩ := List.forall_mem_cons.mp h
      rw [List.mapM_cons, hsuite, ih htokens, List.filterMap_cons, hsuite]
      rfl

theorem mapM_read_of_fault (hbefore : ∀ token ∈ before, Readable token)
    (hbad : read bad = .error e) (after : List (List Char)) :
    (before ++ bad :: after).mapM read = .error e := by
  rw [List.mapM_append, mapM_read_of_readable hbefore, List.mapM_cons, hbad]
  rfl

theorem readable_or_fault (tokens : List (List Char)) :
    (∀ token ∈ tokens, Readable token) ∨ ∃ e, FirstFault tokens e := by
  induction tokens with
  | nil => exact .inl (by simp)
  | cons token tokens ih =>
      cases htoken : read token with
      | error e => exact .inr ⟨e, [], token, tokens, rfl, by simp, htoken⟩
      | ok suite =>
          rcases ih with hall | ⟨e, before, bad, after, rfl, hbefore, hbad⟩
          · exact .inl (List.forall_mem_cons.mpr ⟨⟨suite, htoken⟩, hall⟩)
          · exact .inr ⟨e, token :: before, bad, after, rfl,
              List.forall_mem_cons.mpr ⟨⟨suite, htoken⟩, hbefore⟩, hbad⟩

/-! ## Lists -/

variable {s : String}

theorem parseLenient_eq (h : entries ',' s.toList = tokens) :
    parseLenient s = if named tokens = [] then defaults else named tokens := by
  unfold parseLenient readLenient
  rw [h, Ranked.ofList_eq_eraseDups]
  rfl

theorem parseStrict_of_readable (h : entries ',' s.toList = tokens)
    (hall : ∀ token ∈ tokens, Readable token) : parseStrict s = .ok (named tokens) := by
  unfold parseStrict readStrict
  rw [h, mapM_read_of_readable hall]
  show Except.ok (Ranked.ofList _) = _
  rw [Ranked.ofList_eq_eraseDups]
  rfl

theorem parseStrict_of_fault (h : entries ',' s.toList = tokens) (hfault : FirstFault tokens e) :
    parseStrict s = .error e := by
  obtain ⟨before, bad, after, rfl, hbefore, hbad⟩ := hfault
  unfold parseStrict readStrict
  rw [h, mapM_read_of_fault hbefore hbad]
  rfl

theorem parseStrict_eq_ok_iff (h : entries ',' s.toList = tokens) (suites : List Suite) :
    parseStrict s = .ok suites ↔ (∀ token ∈ tokens, Readable token) ∧ suites = named tokens := by
  rcases readable_or_fault tokens with hall | ⟨e, hfault⟩
  · rw [parseStrict_of_readable h hall, Except.ok.injEq, eq_comm]
    exact (and_iff_right hall).symm
  · rw [parseStrict_of_fault h hfault]
    obtain ⟨before, bad, after, rfl, -, hbad⟩ := hfault
    constructor
    · rintro ⟨⟩
    · rintro ⟨hall, -⟩
      obtain ⟨suite, hsuite⟩ := hall bad (by simp)
      rw [hbad] at hsuite
      cases hsuite

theorem parseStrict_eq_error_iff (h : entries ',' s.toList = tokens) (e : Error) :
    parseStrict s = .error e ↔ FirstFault tokens e := by
  refine ⟨fun hstrict => ?_, parseStrict_of_fault h⟩
  rcases readable_or_fault tokens with hall | ⟨e', hfault⟩
  · rw [parseStrict_of_readable h hall] at hstrict
    cases hstrict
  · rw [parseStrict_of_fault h hfault, Except.error.injEq] at hstrict
    rwa [← hstrict]

/-! ## Lists that were written -/

theorem entries_listText (suites : List Suite) :
    entries ',' (listText suites).toList = suites.map write := by
  unfold listText
  rw [String.toList_ofList, entries_writeList]

theorem named_map_write (suites : List Suite) : named (suites.map write) = suites.eraseDups := by
  unfold named
  rw [filterMap_read_write]

theorem eraseDups_eq_nil_iff {suites : List Suite} : suites.eraseDups = [] ↔ suites = [] := by
  cases suites with
  | nil => simp
  | cons suite suites => simp [List.eraseDups_cons]

/-- **Strict and lenient lists agree.** A text is cut at its commas, and what is
left between them names the suites of the list: those that can be read, each
once and in order. Read leniently the text is that list, or the defaults where
it is empty. Read strictly it is that list as long as every token can be read,
and otherwise the error of the first one that cannot. A list of suites that is
written comes back from either reading without its repetitions, and none at all
comes back from the lenient one as the defaults. -/
theorem strict_and_lenient_agree (s : String) (suites : List Suite) :
    (∃ tokens, Enumerates ',' s.toList tokens ∧
      parseLenient s = (if named tokens = [] then defaults else named tokens) ∧
      (∀ listed, parseStrict s = .ok listed ↔
        (∀ token ∈ tokens, Readable token) ∧ listed = named tokens) ∧
      ∀ e, parseStrict s = .error e ↔ FirstFault tokens e) ∧
    parseStrict (listText suites) = .ok suites.eraseDups ∧
    parseLenient (listText suites) = if suites = [] then defaults else suites.eraseDups := by
  have hwritten := entries_listText suites
  have hreadable : ∀ token ∈ suites.map write, Readable token := by
    intro token htoken
    obtain ⟨suite, -, rfl⟩ := List.mem_map.mp htoken
    exact ⟨suite, suite.read_write⟩
  refine ⟨⟨entries ',' s.toList, entries_eq_iff.mp rfl, parseLenient_eq rfl,
    parseStrict_eq_ok_iff rfl, parseStrict_eq_error_iff rfl⟩, ?_, ?_⟩
  · rw [parseStrict_of_readable hwritten hreadable, named_map_write]
  · rw [parseLenient_eq hwritten, named_map_write]
    simp only [eraseDups_eq_nil_iff]

end Switchboard.Srtp.Suite
