import Switchboard.Address.Basic

/-!
# Custom attributes

Attributes that an application adds to a session description, in order and
with repetitions. The session has one store, which may be empty; each stream
has one only while something is in it.
-/

namespace Switchboard.Call

/-- Attributes in the order in which they were added. -/
abbrev Attributes := List Param

namespace Attributes

def add (as : Attributes) (name : String) (value? : Option String) : Attributes :=
  as ++ [⟨name, value?⟩]

/-- Value of the first attribute of exactly this name. -/
def get? (as : Attributes) (name : String) : Option (Option String) :=
  (as.find? fun a => a.name = name).map (·.value?)

end Attributes

inductive Stream
  | audio
  | video
  | text
  deriving DecidableEq, Repr

/-- The store of each stream that has one. -/
structure StreamAttributes where
  audio? : Option Attributes := none
  video? : Option Attributes := none
  text? : Option Attributes := none
  deriving DecidableEq, Repr

namespace StreamAttributes

def store? (s : StreamAttributes) : Stream → Option Attributes
  | .audio => s.audio?
  | .video => s.video?
  | .text => s.text?

def setStore (s : StreamAttributes) (stream : Stream) (store? : Option Attributes) :
    StreamAttributes :=
  match stream with
  | .audio => { s with audio? := store? }
  | .video => { s with video? := store? }
  | .text => { s with text? := store? }

def add (s : StreamAttributes) (stream : Stream) (name : String) (value? : Option String) :
    StreamAttributes :=
  s.setStore stream (some (((s.store? stream).getD []).add name value?))

def get? (s : StreamAttributes) (stream : Stream) (name : String) : Option (Option String) :=
  (s.store? stream).bind fun as => as.get? name

/-- Drops the store of a stream. -/
def clear (s : StreamAttributes) (stream : Stream) : StreamAttributes :=
  s.setStore stream none

@[simp] theorem store?_setStore_self (s : StreamAttributes) (stream : Stream)
    (store? : Option Attributes) : (s.setStore stream store?).store? stream = store? := by
  cases stream <;> rfl

theorem store?_setStore_of_ne (s : StreamAttributes) {stream other : Stream}
    (store? : Option Attributes) (h : other ≠ stream) :
    (s.setStore stream store?).store? other = s.store? other := by
  cases stream <;> cases other <;> first | rfl | exact absurd rfl h

end StreamAttributes

end Switchboard.Call
