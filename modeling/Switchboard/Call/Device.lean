/-!
# Audio devices

A device is known by its identity: two devices of the same name and driver
are still two. Whoever holds a device holds a handle on it, and its handles
can be counted.
-/

namespace Switchboard.Call

inductive DeviceKind
  | microphone
  | earpiece
  | speaker
  | bluetooth
  | headset
  | unknown
  deriving DecidableEq, Repr

inductive DeviceUse
  | record
  | play
  | recordAndPlay
  deriving DecidableEq, Repr

structure Device where
  /-- Identity, given once. -/
  id : Nat
  name : String
  driver : String
  kind : DeviceKind
  use : DeviceUse
  deriving DecidableEq, Repr

namespace Device

def canRecord (d : Device) : Bool :=
  d.use ≠ .play

def canPlay (d : Device) : Bool :=
  d.use ≠ .record

def same (a b : Device) : Bool :=
  a.id = b.id

/-- Both are absent, or both are present and the same. -/
def sameOption : Option Device → Option Device → Bool
  | none, none => true
  | some a, some b => a.same b
  | _, _ => false

/-- Handles on the device among these holders. -/
def handles (d : Device) (holders : List (Option Device)) : Nat :=
  holders.countP fun held => sameOption held (some d)

end Device

end Switchboard.Call
