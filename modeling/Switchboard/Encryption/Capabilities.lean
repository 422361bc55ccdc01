import Switchboard.Encryption.Policy

/-!
# Advertised capabilities

What one party tells the other about its encryption. An offer names only the
means of the wanted mode; a party that wants no encryption insists on none.
-/

namespace Switchboard.Encryption

structure Capabilities where
  suites : List Srtp.Suite := []
  zrtp? : Option Zrtp.Preferences := none
  dtls : Bool := false
  /-- A call without encryption is not acceptable. -/
  mandatory : Bool := false
  deriving DecidableEq, Repr

namespace Capabilities

def offers (c : Capabilities) : Mode → Bool
  | .plain => !c.mandatory
  | .srtp => c.suites ≠ []
  | .zrtp => c.zrtp?.isSome
  | .dtls => c.dtls

/-- No encryption is offered at all. -/
def isEmpty (c : Capabilities) : Bool :=
  c.suites = [] && c.zrtp?.isNone && !c.dtls

end Capabilities

def Policy.advertised (p : Policy) : Capabilities where
  suites := if p.mode = .srtp then p.catalog.suites else []
  zrtp? := if p.mode = .zrtp then some p.catalog.zrtp else none
  dtls := p.mode = .dtls && p.catalog.dtls
  mandatory := p.mandatory && p.mode.isEncrypted

end Switchboard.Encryption
