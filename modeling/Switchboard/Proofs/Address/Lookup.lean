import Mathlib.Data.List.Induction
import Switchboard.Address.Parser

/-!
# Parameters as a map

A list of parameters may name one of them several times and in several
spellings. A lookup reads the first one of a name, setting a parameter changes
that one alone, and erasing drops them all. Because these three fit together,
either list of an address is a map from names in any letter case, whatever it
started from: what is found under a name is what the last edit of that name left
there. Edits of the one list are nothing to the other, nor to whom the address
names.
-/

namespace Switchboard

open Text

/-! ## One list -/

namespace Params

variable {ps : List Param} {name : String}

/-- The names as they are spelled, in order. -/
def names (ps : List Param) : List String :=
  ps.map (·.name)

/-- No two names are equal up to letter case. -/
def Distinct (ps : List Param) : Prop :=
  (names ps).Pairwise fun m n => sameName m n = false

theorem get?_cons (p : Param) (ps : List Param) (name : String) :
    get? (p :: ps) name = if sameName p.name name then some p.value? else get? ps name := by
  unfold get?
  rw [List.find?_cons]
  cases sameName p.name name <;> rfl

theorem contains_eq_false_iff :
    contains ps name = false ↔ ∀ m ∈ names ps, sameName m name = false := by
  unfold contains get? names
  simp

theorem get?_set (ps : List Param) (name other : String) (value? : Option String) :
    get? (set ps name value?) other =
      if sameName name other then some value? else get? ps other := by
  induction ps with
  | nil => rw [set, get?_cons]
  | cons p rest ih =>
      cases hp : sameName p.name name with
      | true =>
          rw [set, if_pos hp, get?_cons, get?_cons, sameName_congr hp]
          cases sameName name other <;> rfl
      | false =>
          rw [set, hp, if_neg Bool.false_ne_true, get?_cons, get?_cons, ih]
          cases hother : sameName p.name other with
          | false => rfl
          | true =>
              -- the first parameter is found, so it is not the one that was set
              rw [sameName_eq_false_of hother hp]
              rfl

theorem get?_erase (ps : List Param) (name other : String) :
    get? (erase ps name) other = if sameName name other then none else get? ps other := by
  induction ps with
  | nil => cases sameName name other <;> rfl
  | cons p rest ih =>
      unfold erase at ih ⊢
      cases hp : sameName p.name name with
      | true =>
          rw [List.filter_cons_of_neg (by simp [hp]), ih, get?_cons, sameName_congr hp]
          cases sameName name other <;> rfl
      | false =>
          rw [List.filter_cons_of_pos (by simp [hp]), get?_cons, get?_cons, ih]
          cases hother : sameName p.name other with
          | false => rfl
          | true =>
              rw [sameName_eq_false_of hother hp]
              rfl

/-- Setting keeps all names where they are; one that is new goes to the end. -/
theorem names_set (ps : List Param) (name : String) (value? : Option String) :
    names (set ps name value?) = names ps ++ if contains ps name then [] else [name] := by
  induction ps with
  | nil => rfl
  | cons p rest ih =>
      unfold contains at ih ⊢
      rw [get?_cons]
      cases hp : sameName p.name name with
      | true =>
          rw [set, if_pos hp]
          exact (List.append_nil _).symm
      | false =>
          rw [set, hp, if_neg Bool.false_ne_true, if_neg Bool.false_ne_true]
          exact congrArg (p.name :: ·) ih

theorem names_erase_sublist (ps : List Param) (name : String) :
    (names (erase ps name)).Sublist (names ps) :=
  List.filter_sublist.map _

theorem Distinct.set (h : Distinct ps) (name : String) (value? : Option String) :
    Distinct (set ps name value?) := by
  unfold Distinct
  rw [names_set]
  cases hcontains : contains ps name with
  | true =>
      rw [if_pos rfl, List.append_nil]
      exact h
  | false =>
      rw [if_neg Bool.false_ne_true, List.pairwise_append]
      refine ⟨h, List.pairwise_singleton _ _, ?_⟩
      intro m hm n hn
      rw [List.mem_singleton.mp hn]
      exact contains_eq_false_iff.mp hcontains m hm

theorem Distinct.erase (h : Distinct ps) (name : String) : Distinct (erase ps name) :=
  List.Pairwise.sublist (names_erase_sublist ps name) h

end Params

/-! ## Edits -/

namespace Address

/-- Where parameters of an address stand. -/
inductive Place
  | inUri
  | afterUri
  deriving DecidableEq

inductive Edit
  | set (place : Place) (name : String) (value? : Option String)
  | erase (place : Place) (name : String)

namespace Edit

def place : Edit → Place
  | set place _ _ => place
  | erase place _ => place

def name : Edit → String
  | set _ name _ => name
  | erase _ name => name

/-- What is found under the name afterwards. -/
def leaves : Edit → Option (Option String)
  | set _ _ value? => some value?
  | erase _ _ => none

/-- The edit is one of that parameter, however its name is spelled. -/
def concerns (e : Edit) (place : Place) (name : String) : Bool :=
  e.place = place && sameName e.name name

def onParams : Edit → List Param → List Param
  | set _ name value?, ps => Params.set ps name value?
  | erase _ name, ps => Params.erase ps name

@[simp] theorem concerns_set (place : Place) (name other : String) (value? : Option String) :
    (set place name value?).concerns place other = sameName name other := by
  simp [concerns, Edit.place, Edit.name]

@[simp] theorem concerns_erase (place : Place) (name other : String) :
    (erase place name).concerns place other = sameName name other := by
  simp [concerns, Edit.place, Edit.name]

theorem get?_onParams (e : Edit) (ps : List Param) (other : String) :
    Params.get? (e.onParams ps) other =
      if sameName e.name other then e.leaves else Params.get? ps other := by
  cases e with
  | set place name value? => exact Params.get?_set ps name other value?
  | erase place name => exact Params.get?_erase ps name other

theorem distinct_onParams {ps : List Param} (h : Params.Distinct ps) (e : Edit) :
    Params.Distinct (e.onParams ps) := by
  cases e with
  | set place name value? => exact h.set name value?
  | erase place name => exact h.erase name

end Edit

def paramsAt (a : Address) : Place → List Param
  | .inUri => a.uriParams
  | .afterUri => a.params

/-- Value of the parameter of that name at that place. -/
def value? (a : Address) (place : Place) (name : String) : Option (Option String) :=
  Params.get? (a.paramsAt place) name

def edit (a : Address) : Edit → Address
  | .set .inUri name value? => a.setUriParam name value?
  | .set .afterUri name value? => a.setParam name value?
  | .erase .inUri name => a.eraseUriParam name
  | .erase .afterUri name => a.eraseParam name

def editAll (a : Address) (edits : List Edit) : Address :=
  edits.foldl edit a

variable {a a' : Address} {place : Place} {edits edits' : List Edit}

theorem editAll_snoc (a : Address) (edits : List Edit) (last : Edit) :
    a.editAll (edits ++ [last]) = (a.editAll edits).edit last := by
  unfold editAll
  rw [List.foldl_append]
  rfl

/-! ## One edit -/

theorem paramsAt_edit (a : Address) (e : Edit) (place : Place) :
    (a.edit e).paramsAt place =
      if e.place = place then e.onParams (a.paramsAt place) else a.paramsAt place := by
  cases e with
  | set at' name value? => cases at' <;> cases place <;> rfl
  | erase at' name => cases at' <;> cases place <;> rfl

theorem value?_edit (a : Address) (e : Edit) (place : Place) (name : String) :
    (a.edit e).value? place name =
      if e.concerns place name then e.leaves else a.value? place name := by
  unfold value? Edit.concerns
  rw [paramsAt_edit]
  by_cases hplace : e.place = place
  · rw [if_pos hplace, Edit.get?_onParams, decide_eq_true hplace, Bool.true_and]
  · rw [if_neg hplace, decide_eq_false hplace, Bool.false_and]
    rfl

/-- Nothing but the parameters is edited. -/
theorem edit_eq (a : Address) (e : Edit) :
    a.edit e =
      { a with uriParams := (a.edit e).uriParams, params := (a.edit e).params } := by
  cases e with
  | set at' name value? => cases at' <;> rfl
  | erase at' name => cases at' <;> rfl

theorem identity_edit (a : Address) (e : Edit) : (a.edit e).identity = a.identity := by
  rw [edit_eq]
  rfl

/-! ## Edits in a row -/

/-- Either list goes its own way. -/
theorem paramsAt_editAll (a : Address) (edits : List Edit) (place : Place) :
    (a.editAll edits).paramsAt place =
      (edits.filter (·.place = place)).foldl (fun ps e => e.onParams ps) (a.paramsAt place) := by
  induction edits using List.reverseRecOn with
  | nil => rfl
  | append_singleton edits last ih =>
      rw [editAll_snoc, paramsAt_edit, ih, List.filter_append, List.foldl_append]
      by_cases hplace : last.place = place <;> simp [hplace]

theorem value?_editAll (a : Address) (edits : List Edit) (place : Place) (name : String) :
    (a.editAll edits).value? place name =
      (edits.filter (·.concerns place name)).getLast?.elim (a.value? place name) Edit.leaves := by
  induction edits using List.reverseRecOn with
  | nil => rfl
  | append_singleton edits last ih =>
      rw [editAll_snoc, value?_edit, List.filter_append]
      cases hlast : last.concerns place name with
      | true => simp [hlast]
      | false => simp [hlast, ih]

theorem distinct_editAll (h : Params.Distinct (a.paramsAt place)) (edits : List Edit) :
    Params.Distinct ((a.editAll edits).paramsAt place) := by
  induction edits using List.reverseRecOn with
  | nil => exact h
  | append_singleton edits last ih =>
      rw [editAll_snoc, paramsAt_edit]
      split
      · exact Edit.distinct_onParams ih last
      · exact ih

theorem identity_editAll (a : Address) (edits : List Edit) :
    (a.editAll edits).identity = a.identity := by
  induction edits using List.reverseRecOn with
  | nil => rfl
  | append_singleton edits last ih => rw [editAll_snoc, identity_edit, ih]

theorem paramsAt_editAll_congr (hparams : a'.paramsAt place = a.paramsAt place)
    (hedits : edits'.filter (·.place = place) = edits.filter (·.place = place)) :
    (a'.editAll edits').paramsAt place = (a.editAll edits).paramsAt place := by
  rw [paramsAt_editAll, paramsAt_editAll, hparams, hedits]

/-- Whom an address names is told by what is left of it without parameters. -/
theorem sameParty_congr (h : a'.identity = a.identity) (other : Address) :
    a'.sameParty other = a.sameParty other :=
  congrArg (·.sameParty other) h

/-- **Parameters form a map.** Edit the parameters of an address as you like. Then
a name, in any letter case, has the value that the last edit of it left at that
place, and where there was none the value it had at first. So setting a parameter
changes what is found under its name and erasing it takes that away, and either
leaves alone what is found under other names. What stands at one place depends on
the edits of that place alone. Setting keeps the order and the spelling of the
names and adds its own at the end where it is new; names that differ in more than
letter case go on doing so. The address without its parameters, and whom it is the
same party as, never changes. -/
theorem params_form_map (a : Address) (edits : List Edit) :
    let b := a.editAll edits
    (∀ place name, b.value? place name =
      (edits.filter (·.concerns place name)).getLast?.elim (a.value? place name) Edit.leaves) ∧
    (∀ place name value? other, (b.edit (.set place name value?)).value? place other =
      if sameName name other then some value? else b.value? place other) ∧
    (∀ place name other, (b.edit (.erase place name)).value? place other =
      if sameName name other then none else b.value? place other) ∧
    (∀ place (a' : Address) (edits' : List Edit), a'.paramsAt place = a.paramsAt place →
      edits'.filter (·.place = place) = edits.filter (·.place = place) →
      (a'.editAll edits').paramsAt place = b.paramsAt place) ∧
    (∀ place name value?, Params.names ((b.edit (.set place name value?)).paramsAt place) =
      Params.names (b.paramsAt place) ++
        if Params.contains (b.paramsAt place) name then [] else [name]) ∧
    (∀ place, Params.Distinct (a.paramsAt place) → Params.Distinct (b.paramsAt place)) ∧
    b.identity = a.identity ∧
    ∀ other, b.sameParty other = a.sameParty other ∧ other.sameParty b = other.sameParty a := by
  intro b
  have hidentity : b.identity = a.identity := identity_editAll a edits
  refine ⟨value?_editAll a edits, ?_, ?_, fun _ _ _ => paramsAt_editAll_congr, ?_,
    fun _ h => distinct_editAll h edits, hidentity, ?_⟩
  · intro place name value? other
    rw [value?_edit, Edit.concerns_set]
    rfl
  · intro place name other
    rw [value?_edit, Edit.concerns_erase]
    rfl
  · intro place name value?
    have hset : (b.edit (.set place name value?)).paramsAt place =
        Params.set (b.paramsAt place) name value? := by
      cases place <;> rfl
    rw [hset, Params.names_set]
  · intro other
    have hsame := sameParty_congr hidentity other
    rw [sameParty_comm other, sameParty_comm other]
    exact ⟨hsame, hsame⟩

/-- The name stands there twice: the first one is set, and both are erased. -/
example : (parse "<sip:a@b>;x=1;y;X=2").toOption.map (fun a =>
      ((a.setParam "X" (some "3")).params, (a.eraseParam "X").params)) =
    some ([⟨"x", some "3"⟩, ⟨"y", none⟩, ⟨"X", some "2"⟩], [⟨"y", none⟩]) := by
  decide +kernel

end Address

end Switchboard
