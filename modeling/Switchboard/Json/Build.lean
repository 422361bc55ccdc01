import Switchboard.Json.Basic

/-!
# Building JSON

Texts, switches and counts stand for the values they are written as, and what
is absent for null.
-/

namespace Switchboard.Json

instance : Coe String Json := ⟨text⟩

instance : Coe Bool Json := ⟨bool⟩

instance : Coe Nat Json := ⟨fun n => integer n⟩

instance : Coe UInt8 Json := ⟨fun n => integer n.toNat⟩

instance : Coe UInt16 Json := ⟨fun n => integer n.toNat⟩

instance : Coe UInt32 Json := ⟨fun n => integer n.toNat⟩

def orNull {α : Type} (f : α → Json) : Option α → Json
  | none => null
  | some a => f a

def texts (items : List String) : Json :=
  list (items.map text)

end Switchboard.Json
