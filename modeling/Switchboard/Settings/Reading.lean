import Switchboard.Encryption.Mode
import Switchboard.Json.Basic
import Switchboard.Settings.Basic
import Switchboard.Settings.Tree

/-!
# Reading settings

Settings are read by name, from values that are lenient about the kind of a
scalar or from JSON, which is strict. A name that is not set keeps its
default, and unknown names do not count. One value that cannot be read makes
the settings unreadable.
-/

namespace Switchboard.Settings

open Encryption

/-- Values that settings can be read from. -/
class Source (τ : Type) where
  /-- Values given to names, for a group of settings with these names. -/
  fields? (names : List String) : τ → Option (List (String × τ))
  bool? : τ → Option Bool
  /-- A count below a bound. -/
  natural? (bound : Nat) : τ → Option Nat
  text? : τ → Option String
  /-- A text that may be left out by a value of its own. -/
  optionalText? : τ → Option (Option String)
  mode? : τ → Option Mode

namespace Tree

/-- A list gives the settings of a group in their order; what it has beyond
them does not count. -/
def fields? (names : List String) : Tree → Option (List (String × Tree))
  | table entries => some entries
  | list items => some (names.zip items)
  | _ => none

/-- A text that a value stands for, or none at a vacant place. -/
def optionalText? : Tree → Option (Option String)
  | vacant => some none
  | value => value.text?.map some

/-- A mode by its name, given as a text or as the only name of a table. -/
def mode? : Tree → Option Mode
  | text s => Mode.ofFoldedName? s
  | table [(name, _)] => Mode.ofFoldedName? name
  | _ => none

end Tree

instance : Source Tree where
  fields? := Tree.fields?
  bool? := Tree.bool?
  natural? := Tree.natural?
  text? := Tree.text?
  optionalText? := Tree.optionalText?
  mode? := Tree.mode?

/-- Settings of a group in JSON. A list gives them in their order and has none
beyond them. -/
def fieldsOfJson? (names : List String) : Json → Option (List (String × Json))
  | .record members => some members
  | .list items => if items.length ≤ names.length then some (names.zip items) else none
  | _ => none

instance : Source Json where
  fields? := fieldsOfJson?
  bool? := Json.bool?
  natural? := Json.natural?
  text? := Json.text?
  optionalText?
    | .null => some none
    | value => value.text?.map some
  mode? value := (value.choice? Json.isNull).bind Mode.ofName?

variable {τ α : Type} [Source τ]

/-- The setting of a name, or its default where the name is not set. A name
that is set twice cannot be read. -/
def field (fields : List (String × τ)) (read : τ → Option α) (name : String) (default : α) :
    Option α :=
  match fields.filter fun f => f.1 = name with
  | [] => some default
  | [f] => read f.2
  | _ => none

def word32? (value : τ) : Option UInt32 :=
  (Source.natural? UInt32.size value).map UInt32.ofNat

def word16? (value : τ) : Option UInt16 :=
  (Source.natural? UInt16.size value).map UInt16.ofNat

/-! ## Groups of settings -/

def Edge.names : List String :=
  ["activate_edge_workarounds", "edge_ping_time_ms", "edge_bandwidth_kbps", "edge_ptime_ms"]

def Edge.read? (value : τ) : Option Edge := do
  let fields ← Source.fields? Edge.names value
  let d : Edge := {}
  let active ← field fields Source.bool? "activate_edge_workarounds" d.active
  let pingThresholdMs ← field fields word32? "edge_ping_time_ms" d.pingThresholdMs
  let bandwidthKbps ← field fields word32? "edge_bandwidth_kbps" d.bandwidthKbps
  let packetTimeMs ← field fields word32? "edge_ptime_ms" d.packetTimeMs
  pure { active, pingThresholdMs, bandwidthKbps, packetTimeMs }

def ZrtpLists.read? (fields : List (String × τ)) : Option ZrtpLists := do
  let ciphers? ← field fields Source.optionalText? "zrtp_cipher_suites" none
  let hashes? ← field fields Source.optionalText? "zrtp_hash_suites" none
  let authTags? ← field fields Source.optionalText? "zrtp_auth_suites" none
  let keyAgreements? ← field fields Source.optionalText? "zrtp_key_agreement_suites" none
  let sas? ← field fields Source.optionalText? "zrtp_sas_suites" none
  pure { ciphers?, hashes?, authTags?, keyAgreements?, sas? }

def Media.names : List String :=
  ["encryption", "encryption_mandatory", "accept_any_encryption", "srtp_crypto_suites",
   "zrtp_cipher_suites", "zrtp_hash_suites", "zrtp_auth_suites", "zrtp_key_agreement_suites",
   "zrtp_sas_suites", "video_enabled", "video_automatically_initiate",
   "video_automatically_accept", "realtime_text_enabled",
   "realtime_text_keepalive_interval_ms", "avpf_enabled", "avpf_rr_interval_secs",
   "implicit_rtcp_fb", "real_early_media", "audio_multicast", "video_multicast",
   "update_call_when_ice_completed", "update_call_when_ice_completed_with_dtls", "rtp_bundle",
   "record_aware", "mic_enabled", "edge"]

def Media.read? (value : τ) : Option Media := do
  let fields ← Source.fields? Media.names value
  let d : Media := {}
  let switch := field fields Source.bool?
  let encryption ← field fields Source.mode? "encryption" d.encryption
  let encryptionMandatory ← switch "encryption_mandatory" d.encryptionMandatory
  let acceptAnyEncryption ← switch "accept_any_encryption" d.acceptAnyEncryption
  let srtpSuites? ← field fields Source.optionalText? "srtp_crypto_suites" none
  let zrtp ← ZrtpLists.read? fields
  let videoEnabled ← switch "video_enabled" d.videoEnabled
  let videoOnOutgoing ← switch "video_automatically_initiate" d.videoOnOutgoing
  let videoOnIncoming ← switch "video_automatically_accept" d.videoOnIncoming
  let textEnabled ← switch "realtime_text_enabled" d.textEnabled
  let textKeepaliveMs ←
    field fields word32? "realtime_text_keepalive_interval_ms" d.textKeepaliveMs
  let feedbackEnabled ← switch "avpf_enabled" d.feedbackEnabled
  let feedbackIntervalSecs ← field fields word16? "avpf_rr_interval_secs" d.feedbackIntervalSecs
  let implicitFeedback ← switch "implicit_rtcp_fb" d.implicitFeedback
  let earlyMedia ← switch "real_early_media" d.earlyMedia
  let audioMulticast ← switch "audio_multicast" d.audioMulticast
  let videoMulticast ← switch "video_multicast" d.videoMulticast
  let updateAfterIce ← switch "update_call_when_ice_completed" d.updateAfterIce
  let updateAfterIceWithDtls ←
    switch "update_call_when_ice_completed_with_dtls" d.updateAfterIceWithDtls
  let bundle ← switch "rtp_bundle" d.bundle
  let recordAware ← switch "record_aware" d.recordAware
  let microphone ← switch "mic_enabled" d.microphone
  let edge ← field fields Edge.read? "edge" d.edge
  pure { encryption, encryptionMandatory, acceptAnyEncryption, srtpSuites?, zrtp, videoEnabled,
         videoOnOutgoing, videoOnIncoming, textEnabled, textKeepaliveMs, feedbackEnabled,
         feedbackIntervalSecs, implicitFeedback, earlyMedia, audioMulticast, videoMulticast,
         updateAfterIce, updateAfterIceWithDtls, bundle, recordAware, microphone, edge }

def Chat.names : List String :=
  ["conference_factory_uri", "address_max_attempts"]

def Chat.read? (value : τ) : Option Chat := do
  let fields ← Source.fields? Chat.names value
  let d : Chat := {}
  let factoryUri ← field fields Source.text? "conference_factory_uri" d.factoryUri
  let maxAttempts ← field fields word32? "address_max_attempts" d.maxAttempts
  pure { factoryUri, maxAttempts }

/-- All settings, from the values of the root. -/
def read? (fields : List (String × τ)) : Option Settings := do
  let d : Settings := {}
  let media ← field fields Media.read? "media" d.media
  let chat ← field fields Chat.read? "chat" d.chat
  let logLevel? ← field fields Source.optionalText? "log_level" none
  let logFormat? ← field fields Source.optionalText? "log_format" none
  pure { media, chat, logLevel?, logFormat? }

end Switchboard.Settings
