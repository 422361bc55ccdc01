import Switchboard.Encryption.Mode

/-!
# Settings

What an administrator sets: the media of a call, the limits for slow
networks, the chat rooms and the log. Every setting has a default, so empty
settings are complete.
-/

namespace Switchboard.Settings

open Encryption

/-- Limits for networks that turn out to be slow. -/
structure Edge where
  /-- Slow networks are looked for at all. -/
  active : Bool := false
  /-- A longer round trip than this marks a slow network. -/
  pingThresholdMs : UInt32 := 500
  bandwidthKbps : UInt32 := 20
  packetTimeMs : UInt32 := 100
  deriving DecidableEq, Repr

/-- Configured ZRTP lists, one text per category. -/
structure ZrtpLists where
  ciphers? : Option String := none
  hashes? : Option String := none
  authTags? : Option String := none
  keyAgreements? : Option String := none
  sas? : Option String := none
  deriving DecidableEq, Repr

structure Media where
  encryption : Mode := .plain
  encryptionMandatory : Bool := false
  /-- Any encryption of the peer will do, not only the configured one. -/
  acceptAnyEncryption : Bool := false
  srtpSuites? : Option String := none
  zrtp : ZrtpLists := {}
  videoEnabled : Bool := true
  videoOnOutgoing : Bool := false
  videoOnIncoming : Bool := false
  textEnabled : Bool := false
  textKeepaliveMs : UInt32 := 25000
  feedbackEnabled : Bool := false
  feedbackIntervalSecs : UInt16 := 5
  implicitFeedback : Bool := true
  earlyMedia : Bool := false
  audioMulticast : Bool := false
  videoMulticast : Bool := false
  updateAfterIce : Bool := true
  updateAfterIceWithDtls : Bool := false
  bundle : Bool := false
  recordAware : Bool := false
  microphone : Bool := true
  edge : Edge := {}
  deriving DecidableEq, Repr

structure Chat where
  /-- Address to which rooms are created by invitation. -/
  factoryUri : String := "sip:conference-factory@localhost"
  /-- Tries at finding an address for a new room. -/
  maxAttempts : UInt32 := 100
  deriving DecidableEq, Repr

end Switchboard.Settings

namespace Switchboard

structure Settings where
  media : Settings.Media := {}
  chat : Settings.Chat := {}
  logLevel? : Option String := none
  logFormat? : Option String := none
  deriving DecidableEq, Repr

namespace Settings

def logLevel (s : Settings) : String :=
  s.logLevel?.getD "info"

def logFormat (s : Settings) : String :=
  s.logFormat?.getD "json"

end Settings

end Switchboard
