import Switchboard.Call.Defaults

/-!
# Histories of parameters

The parameters of a call start blank or from what is configured. Then settings
are made, the network is measured, agreements on encryption are taken over,
and a new round goes on with a copy.
-/

namespace Switchboard.Call

/-- What parameters start from. -/
inductive Origin
  | blank
  | configured (defaults : Defaults) (initiative : Initiative)

def Origin.parameters : Origin → Parameters
  | .blank => {}
  | .configured defaults initiative => .initial defaults initiative

inductive Change
  | set (setting : Parameters.Setting)
  | adapt (edge : Settings.Edge) (pingMs : Int)
  | commit (agreement : Encryption.Agreement)
  /-- A new round goes on with a copy. -/
  | copy

namespace Parameters

def change (p : Parameters) : Change → Parameters
  | .set setting => p.set setting
  | .adapt edge pingMs => p.adapt edge pingMs
  | .commit agreement => p.commit agreement
  | .copy => p.copy

def changeAll (p : Parameters) (changes : List Change) : Parameters :=
  changes.foldl change p

theorem changeAll_cons (p : Parameters) (change : Change) (changes : List Change) :
    p.changeAll (change :: changes) = (p.change change).changeAll changes := rfl

end Parameters

end Switchboard.Call
