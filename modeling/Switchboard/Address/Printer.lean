import Switchboard.Address.Basic
import Switchboard.Text.Numeral

/-!
# Writing addresses

The URI stands alone when there is neither a display name nor a parameter
after it; otherwise it stands in angle brackets. Nothing is escaped, so only
some addresses read back from what is written.
-/

namespace Switchboard.Address

def writeParam (p : Param) : List Char :=
  match p.value? with
  | none => ';' :: p.name.toList
  | some value => ';' :: p.name.toList ++ '=' :: value.toList

def writeParams (ps : List Param) : List Char :=
  ps.flatMap writeParam

def writeUser : Option String → List Char
  | none => []
  | some user => user.toList ++ ['@']

def writePort : Option UInt16 → List Char
  | none => []
  | some port => ':' :: Text.decimal port.toNat

def writeUri (a : Address) : List Char :=
  a.scheme.name.toList ++ ':' :: writeUser a.user? ++ a.host.toList ++ writePort a.port?
    ++ writeParams a.uriParams

def writeDisplayName : Option String → List Char
  | none => []
  | some name => '"' :: name.toList ++ ['"', ' ']

def write (a : Address) : List Char :=
  if a.displayName? = none ∧ a.params = [] then a.writeUri
  else writeDisplayName a.displayName? ++ '<' :: a.writeUri ++ '>' :: writeParams a.params

/-- The URI alone, without display name and outer parameters. -/
def uriText (a : Address) : String :=
  String.ofList a.writeUri

def text (a : Address) : String :=
  String.ofList a.write

end Switchboard.Address
