import Switchboard.Text.Fold

/-!
# Addresses

An address names a party: an optional display name, a URI made of scheme,
user, host and port, and two parameter lists, one inside the URI and one
outside it. Parameter names are compared without regard to letter case. Two
addresses with the same scheme, user, host and port name the same party,
whatever else they carry.
-/

namespace Switchboard

/-- URI scheme of an address; `sips` asks for a secured path. -/
inductive Scheme
  | sip
  | sips
  deriving DecidableEq, Repr

namespace Scheme

def name : Scheme → String
  | sip => "sip"
  | sips => "sips"

def ofName? : List Char → Option Scheme
  | ['s', 'i', 'p'] => some sip
  | ['s', 'i', 'p', 's'] => some sips
  | _ => none

theorem ofName?_name (s : Scheme) : ofName? s.name.toList = some s := by
  cases s <;> decide

end Scheme

/-- A parameter `name=value`, or the bare flag `name`. -/
structure Param where
  name : String
  value? : Option String
  deriving DecidableEq, Repr

namespace Params

/-- Value under a name: the first parameter of that name counts. -/
def get? (ps : List Param) (name : String) : Option (Option String) :=
  (ps.find? fun p => Text.sameName p.name name).map (·.value?)

def contains (ps : List Param) (name : String) : Bool :=
  (get? ps name).isSome

/-- Gives the first parameter of that name the new value and keeps its
spelling and place; appends a parameter when there is none. -/
def set (ps : List Param) (name : String) (value? : Option String) : List Param :=
  match ps with
  | [] => [⟨name, value?⟩]
  | p :: rest =>
    if Text.sameName p.name name then { p with value? } :: rest
    else p :: set rest name value?

/-- Drops every parameter of that name. -/
def erase (ps : List Param) (name : String) : List Param :=
  ps.filter fun p => !Text.sameName p.name name

end Params

structure Address where
  displayName? : Option String := none
  scheme : Scheme := .sip
  user? : Option String
  host : String
  port? : Option UInt16 := none
  /-- Parameters inside the URI. -/
  uriParams : List Param := []
  /-- Parameters after the URI. -/
  params : List Param := []
  deriving DecidableEq, Repr

namespace Address

/-- The address without display name and parameters. -/
def identity (a : Address) : Address :=
  { a with displayName? := none, uriParams := [], params := [] }

/-- Both addresses name the same party: scheme, user and port agree, and the
hosts agree up to letter case. -/
def sameParty (a b : Address) : Bool :=
  a.scheme = b.scheme && a.user? = b.user? && Text.sameName a.host b.host
    && a.port? = b.port?

def withUser (a : Address) (user? : Option String) : Address :=
  { a with user? }

def withDisplayName (a : Address) (displayName? : Option String) : Address :=
  { a with displayName? }

def setParam (a : Address) (name : String) (value? : Option String := none) : Address :=
  { a with params := Params.set a.params name value? }

def eraseParam (a : Address) (name : String) : Address :=
  { a with params := Params.erase a.params name }

def setUriParam (a : Address) (name : String) (value? : Option String := none) : Address :=
  { a with uriParams := Params.set a.uriParams name value? }

def eraseUriParam (a : Address) (name : String) : Address :=
  { a with uriParams := Params.erase a.uriParams name }

@[simp] theorem sameParty_refl (a : Address) : a.sameParty a = true := by
  simp [sameParty]

theorem sameParty_comm (a b : Address) : a.sameParty b = b.sameParty a := by
  simp only [sameParty, Text.sameName_comm a.host b.host]
  simp only [eq_comm (a := a.scheme), eq_comm (a := a.user?), eq_comm (a := a.port?)]

theorem sameParty_trans {a b c : Address} (hab : a.sameParty b = true)
    (hbc : b.sameParty c = true) : a.sameParty c = true := by
  simp only [sameParty, Bool.and_eq_true, decide_eq_true_eq] at *
  obtain ⟨⟨⟨hs, hu⟩, hh⟩, hp⟩ := hab
  obtain ⟨⟨⟨hs', hu'⟩, hh'⟩, hp'⟩ := hbc
  exact ⟨⟨⟨hs.trans hs', hu.trans hu'⟩, Text.sameName_trans hh hh'⟩, hp.trans hp'⟩

end Address

end Switchboard
