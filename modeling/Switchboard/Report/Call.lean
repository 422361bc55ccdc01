import Switchboard.Call.Parameters
import Switchboard.Json.Build

/-!
# Reports on calls

The parameters of a call as JSON. How a device is reported is left to whoever
asks, who alone knows who else holds it.
-/

namespace Switchboard.Call

def DeviceKind.name : DeviceKind → String
  | microphone => "microphone"
  | earpiece => "earpiece"
  | speaker => "speaker"
  | bluetooth => "bluetooth"
  | headset => "headset"
  | unknown => "unknown"

def DeviceUse.name : DeviceUse → String
  | record => "record"
  | play => "play"
  | recordAndPlay => "both"

def Device.members (d : Device) : List (String × Json) :=
  [("name", d.name), ("driver", d.driver), ("type", d.kind.name), ("capability", d.use.name),
   ("can_record", d.canRecord), ("can_play", d.canPlay)]

def Codec.report (c : Codec) : Json :=
  .record [("number", c.number), ("mime", c.mimeType), ("rate", c.clockRate),
    ("channels", c.channels)]

def VideoDefinition.report (d : VideoDefinition) : Json :=
  .record [("width", d.width), ("height", d.height), ("name", d.name)]

def Attributes.report (as : Attributes) : Json :=
  .record [("len", as.length), ("empty", as.isEmpty),
    ("entries", .list (as.map fun a => .list [a.name, Json.orNull .text a.value?]))]

def RecordingState.name : RecordingState → String
  | unspoken => "none"
  | off => "off"
  | on => "on"

namespace Parameters

def report (device : Device → Json) (p : Parameters) : Json :=
  .record [
    ("audio", .record [("enabled", p.audio.enabled), ("direction", p.audio.direction.name),
      ("multicast", p.audio.multicast), ("bandwidth_limit", p.audio.limitKbps),
      ("codec", Json.orNull Codec.report p.audio.codec?)]),
    ("video", .record [("enabled", p.video.enabled), ("direction", p.video.direction.name),
      ("multicast", p.video.multicast), ("codec", Json.orNull Codec.report p.video.codec?),
      ("received_fps_bits", p.video.receivedRate.bits),
      ("sent_fps_bits", p.video.sentRate.bits),
      ("received_definition", Json.orNull VideoDefinition.report p.video.receivedDefinition?),
      ("sent_definition", Json.orNull VideoDefinition.report p.video.sentDefinition?),
      ("download_bandwidth", p.video.downloadKbps)]),
    ("fec", .record [("enabled", p.errorCorrection.enabled),
      ("codec", Json.orNull Codec.report p.errorCorrection.codec?)]),
    ("text", .record [("enabled", p.text.enabled), ("keepalive", p.text.keepaliveMs),
      ("codec", Json.orNull Codec.report p.text.codec?)]),
    ("avpf", .record [("enabled", p.feedback.enabled), ("set", p.feedback.chosen),
      ("rr_interval_ms", p.feedback.intervalMs), ("implicit_fb", p.feedback.implicit)]),
    ("network", .record [("low_bandwidth", p.network.lowBandwidth), ("up", p.network.upKbps),
      ("down", p.network.downKbps), ("up_ptime", p.network.upPacketMs),
      ("down_ptime", p.network.downPacketMs)]),
    ("record", .record [("path", Json.orNull (fun path => .text path.written) p.recording.path?),
      ("aware", p.recording.aware), ("state", p.recording.state.name),
      ("recording", p.isRecording)]),
    ("early_media", p.earlyMedia),
    ("encryption", .record [("mode", p.encryption.name), ("mandatory", p.encryptionMandatory),
      ("proto", p.profile.name), ("profile", p.profile.name)]),
    ("ice_update", p.updatesAfterIce), ("rtp_bundle", p.bundle), ("mic", p.microphone),
    ("sdp", p.attributes.report),
    ("sdp_media", .record [
      ("audio", Json.orNull Attributes.report p.streamAttributes.audio?),
      ("video", Json.orNull Attributes.report p.streamAttributes.video?),
      ("text", Json.orNull Attributes.report p.streamAttributes.text?)]),
    ("input_device", Json.orNull device p.input?),
    ("output_device", Json.orNull device p.output?)]

end Parameters

end Switchboard.Call
