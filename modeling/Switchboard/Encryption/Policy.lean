import Switchboard.Settings.Basic
import Switchboard.Srtp.SuiteList
import Switchboard.Zrtp.Preferences

/-!
# Encryption policy

What a party can do and what it insists on. The catalog lists suites and
algorithms, most wanted first; the policy adds the wanted mode, whether a
call without encryption is refused, and whether any mode of the peer will do.
-/

namespace Switchboard.Encryption

structure Catalog where
  suites : List Srtp.Suite := Srtp.Suite.defaults
  zrtp : Zrtp.Preferences := Zrtp.Preferences.defaults
  dtls : Bool := true
  deriving DecidableEq, Repr

structure Policy where
  mode : Mode
  mandatory : Bool := false
  acceptAny : Bool := false
  catalog : Catalog := {}
  deriving DecidableEq, Repr

end Switchboard.Encryption

namespace Switchboard.Settings

open Encryption

def ZrtpLists.preferences (z : ZrtpLists) : Zrtp.Preferences :=
  Zrtp.Preferences.ofLists (Zrtp.parseList _ z.ciphers?) (Zrtp.parseList _ z.hashes?)
    (Zrtp.parseList _ z.authTags?) (Zrtp.parseList _ z.keyAgreements?)
    (Zrtp.parseList _ z.sas?)

def Media.catalog (m : Media) : Catalog where
  suites := (m.srtpSuites?.map Srtp.Suite.parseLenient).getD Srtp.Suite.defaults
  zrtp := m.zrtp.preferences

def Media.policy (m : Media) : Policy where
  mode := m.encryption
  mandatory := m.encryptionMandatory
  acceptAny := m.acceptAnyEncryption
  catalog := m.catalog

end Switchboard.Settings
