import Switchboard.Settings.Basic

/-!
# Slow networks

A round trip that takes longer than the configured limit marks the network as
slow, if slow networks are looked for at all. A round trip that was not
measured is not positive and marks nothing.
-/

namespace Switchboard.Call

inductive NetworkProfile
  | normal
  /-- Media are limited to what a slow network carries. -/
  | edge
  deriving DecidableEq, Repr

namespace NetworkProfile

def name : NetworkProfile → String
  | normal => "normal"
  | edge => "edge"

def ofPing (edge : Settings.Edge) (pingMs : Int) : NetworkProfile :=
  if edge.active ∧ 0 < pingMs ∧ (edge.pingThresholdMs.toNat : Int) < pingMs then .edge
  else .normal

end NetworkProfile

end Switchboard.Call
