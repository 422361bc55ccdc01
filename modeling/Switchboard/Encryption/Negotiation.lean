import Switchboard.Encryption.Capabilities
import Switchboard.Reason
import Switchboard.Zrtp.Selection

/-!
# Agreeing on encryption

The wanted mode is tried first. A party that accepts any encryption, or that
insists on none while its peer does, then tries the other modes of the peer.
The first mode with common means is agreed on. Without one the call goes on
in the clear, unless a side insists on encryption: then it is refused. Among
several common suites or algorithms the order of the offerer decides.
-/

namespace Switchboard.Encryption

/-- The side that sent the offer. -/
inductive Offerer
  | here
  | peer
  deriving DecidableEq, Repr

/-- What two parties agreed on. -/
inductive Agreement
  | plain
  | srtp (suite : Srtp.Suite)
  | zrtp (algorithms : Zrtp.Algorithms)
  | dtls
  deriving DecidableEq, Repr

namespace Agreement

def mode : Agreement → Mode
  | plain => .plain
  | srtp _ => .srtp
  | zrtp _ => .zrtp
  | dtls => .dtls

def isEncrypted (a : Agreement) : Bool :=
  a.mode.isEncrypted

def isPostQuantum : Agreement → Bool
  | zrtp algorithms => algorithms.isPostQuantum
  | _ => false

def suite? : Agreement → Option Srtp.Suite
  | srtp suite => some suite
  | _ => none

def algorithms? : Agreement → Option Zrtp.Algorithms
  | zrtp algorithms => some algorithms
  | _ => none

end Agreement

/-- There is no common encryption, and a side insists on some. -/
inductive Mismatch
  | noCommonEncryption
  deriving DecidableEq, Repr

namespace Mismatch

def message : Mismatch → String
  | noCommonEncryption => "No mutually acceptable media encryption"

/-- Reason the call is refused with. -/
def reason : Mismatch → Reason
  | noCommonEncryption => .notAcceptable

end Mismatch

/-- Modes to fall back to, in order. -/
def fallbacks : List Mode :=
  [.dtls, .zrtp, .srtp]

/-- Modes besides the wanted one are open to this party. -/
def Policy.followsPeer (policy : Policy) (peer : Capabilities) : Bool :=
  policy.acceptAny || (peer.mandatory && !policy.mandatory)

/-- Modes to try, in order. -/
def candidates (policy : Policy) (peer : Capabilities) : List Mode :=
  let wanted := if policy.mode.isEncrypted then [policy.mode] else []
  if policy.followsPeer peer then
    wanted ++ fallbacks.filter fun mode => mode ∉ wanted && peer.offers mode
  else wanted

/-- The agreement in one mode, if both sides have common means for it. -/
def agreeOn (policy : Policy) (peer : Capabilities) (offerer : Offerer) :
    Mode → Option Agreement
  | .plain => none
  | .srtp =>
    let suite? := match offerer with
      | .here => Ranked.firstCommon policy.catalog.suites peer.suites
      | .peer => Ranked.firstCommon peer.suites policy.catalog.suites
    suite?.map .srtp
  | .zrtp =>
    peer.zrtp?.bind fun theirs =>
      let algorithms? := match offerer with
        | .here => Zrtp.select policy.catalog.zrtp theirs
        | .peer => Zrtp.select theirs policy.catalog.zrtp
      algorithms?.map .zrtp
  | .dtls => if peer.dtls && policy.catalog.dtls then some .dtls else none

def negotiate (policy : Policy) (peer : Capabilities) (offerer : Offerer) :
    Except Mismatch Agreement :=
  match (candidates policy peer).findSome? (agreeOn policy peer offerer) with
  | some agreement => .ok agreement
  | none =>
    if policy.mandatory || peer.mandatory then .error .noCommonEncryption else .ok .plain

end Switchboard.Encryption
