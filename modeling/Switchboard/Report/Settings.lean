import Switchboard.Json.Build
import Switchboard.Settings.Basic

/-!
# Reports on settings

The settings in force as JSON, under the names that they are read by.
-/

namespace Switchboard.Settings

def Edge.report (e : Edge) : Json :=
  .record [("activate_edge_workarounds", e.active), ("edge_ping_time_ms", e.pingThresholdMs),
    ("edge_bandwidth_kbps", e.bandwidthKbps), ("edge_ptime_ms", e.packetTimeMs)]

/-- Media settings without the limits for slow networks. -/
def Media.report (m : Media) : Json :=
  .record [("encryption", m.encryption.name),
    ("encryption_mandatory", m.encryptionMandatory),
    ("accept_any_encryption", m.acceptAnyEncryption),
    ("srtp_crypto_suites", Json.orNull .text m.srtpSuites?),
    ("zrtp_cipher_suites", Json.orNull .text m.zrtp.ciphers?),
    ("zrtp_hash_suites", Json.orNull .text m.zrtp.hashes?),
    ("zrtp_auth_suites", Json.orNull .text m.zrtp.authTags?),
    ("zrtp_key_agreement_suites", Json.orNull .text m.zrtp.keyAgreements?),
    ("zrtp_sas_suites", Json.orNull .text m.zrtp.sas?),
    ("video_enabled", m.videoEnabled),
    ("video_automatically_initiate", m.videoOnOutgoing),
    ("video_automatically_accept", m.videoOnIncoming),
    ("realtime_text_enabled", m.textEnabled),
    ("realtime_text_keepalive_interval_ms", m.textKeepaliveMs),
    ("avpf_enabled", m.feedbackEnabled),
    ("avpf_rr_interval_secs", m.feedbackIntervalSecs),
    ("implicit_rtcp_fb", m.implicitFeedback),
    ("real_early_media", m.earlyMedia),
    ("audio_multicast", m.audioMulticast),
    ("video_multicast", m.videoMulticast),
    ("update_call_when_ice_completed", m.updateAfterIce),
    ("update_call_when_ice_completed_with_dtls", m.updateAfterIceWithDtls),
    ("rtp_bundle", m.bundle),
    ("record_aware", m.recordAware),
    ("mic_enabled", m.microphone)]

end Switchboard.Settings

namespace Switchboard

def Settings.report (s : Settings) : Json :=
  .record [("log_level", s.logLevel), ("log_format", s.logFormat),
    ("log_level_set", s.logLevel?.isSome), ("log_format_set", s.logFormat?.isSome),
    ("chat", .record [("conference_factory_uri", s.chat.factoryUri),
      ("address_max_attempts", s.chat.maxAttempts)]),
    ("edge", s.media.edge.report), ("media", s.media.report)]

end Switchboard
