/-!
# Capabilities of a chat room

A set of capabilities, one bit each.
-/

namespace Switchboard.Room

structure Capabilities where
  bits : UInt32
  deriving DecidableEq, Repr

namespace Capabilities

def basic : Capabilities := ⟨1⟩

def realTimeText : Capabilities := ⟨2⟩

def conference : Capabilities := ⟨4⟩

def proxy : Capabilities := ⟨8⟩

def migratable : Capabilities := ⟨16⟩

def oneToOne : Capabilities := ⟨32⟩

def empty : Capabilities := ⟨0⟩

def union (a b : Capabilities) : Capabilities :=
  ⟨a.bits ||| b.bits⟩

/-- Every capability of `b` is one of `a`. -/
def contains (a b : Capabilities) : Bool :=
  a.bits &&& b.bits = b.bits

/-- The capability of this name. -/
def ofName? : String → Option Capabilities
  | "basic" => some basic
  | "real_time_text" => some realTimeText
  | "conference" => some conference
  | "proxy" => some proxy
  | "migratable" => some migratable
  | "one_to_one" => some oneToOne
  | _ => none

end Capabilities

end Switchboard.Room
