import Switchboard.Call.Attributes
import Switchboard.Call.Device
import Switchboard.Call.FrameRate
import Switchboard.Call.Network
import Switchboard.Call.Path
import Switchboard.Encryption.Negotiation
import Switchboard.Sdp.Direction
import Switchboard.Sdp.Profile

/-!
# Parameters of a call

What a call is set up with and what it turned out to use: its streams, the
limits of its network, its encryption, its attributes and its devices. A
blank set has audio in both directions and a microphone, and nothing else.
-/

namespace Switchboard.Call

structure Codec where
  number : UInt8
  mimeType : String
  clockRate : UInt32
  channels : UInt8
  deriving DecidableEq, Repr

structure VideoDefinition where
  width : UInt32
  height : UInt32
  name : String
  deriving DecidableEq, Repr

inductive RecordingState
  /-- Recording is not spoken of. -/
  | unspoken
  | off
  | on
  deriving DecidableEq, Repr

structure Audio where
  enabled : Bool := true
  direction : Sdp.Direction := .sendReceive
  multicast : Bool := false
  /-- Zero is no limit. -/
  limitKbps : UInt32 := 0
  codec? : Option Codec := none
  deriving DecidableEq, Repr

structure Video where
  enabled : Bool := false
  direction : Sdp.Direction := .sendReceive
  multicast : Bool := false
  codec? : Option Codec := none
  receivedRate : FrameRate := {}
  sentRate : FrameRate := {}
  receivedDefinition? : Option VideoDefinition := none
  sentDefinition? : Option VideoDefinition := none
  downloadKbps : UInt32 := 0
  deriving DecidableEq, Repr

structure ErrorCorrection where
  enabled : Bool := false
  codec? : Option Codec := none
  deriving DecidableEq, Repr

structure RealTimeText where
  enabled : Bool := false
  keepaliveMs : UInt32 := 0
  codec? : Option Codec := none
  deriving DecidableEq, Repr

structure Feedback where
  enabled : Bool := false
  /-- Somebody has chosen, so defaults no longer count. -/
  chosen : Bool := false
  intervalMs : UInt32 := 0
  implicit : Bool := false
  deriving DecidableEq, Repr

structure NetworkLimits where
  lowBandwidth : Bool := false
  upKbps : UInt32 := 0
  downKbps : UInt32 := 0
  upPacketMs : UInt32 := 0
  downPacketMs : UInt32 := 0
  deriving DecidableEq, Repr

structure Recording where
  path? : Option Path := none
  /-- The peer is told about recording. -/
  aware : Bool := false
  state : RecordingState := .unspoken
  deriving DecidableEq, Repr

structure Parameters where
  audio : Audio := {}
  video : Video := {}
  errorCorrection : ErrorCorrection := {}
  text : RealTimeText := {}
  feedback : Feedback := {}
  network : NetworkLimits := {}
  recording : Recording := {}
  earlyMedia : Bool := false
  encryption : Encryption.Mode := .plain
  encryptionMandatory : Bool := false
  updateAfterIce : Bool := false
  updateAfterIceWithDtls : Bool := false
  bundle : Bool := false
  microphone : Bool := true
  attributes : Attributes := []
  streamAttributes : StreamAttributes := {}
  input? : Option Device := none
  output? : Option Device := none
  deriving DecidableEq, Repr

namespace Parameters

/-! ## What follows from the parameters -/

def profile (p : Parameters) : Sdp.Profile :=
  .ofMode p.encryption p.feedback.enabled

/-- The peer is invited anew once the path is found; with DTLS a setting of
its own decides. -/
def updatesAfterIce (p : Parameters) : Bool :=
  if p.encryption = .dtls then p.updateAfterIceWithDtls else p.updateAfterIce

def isRecording (p : Parameters) : Bool :=
  p.recording.state = .on

/-- Places where the parameters may hold a device. -/
def deviceHolders (p : Parameters) : List (Option Device) :=
  [p.input?, p.output?]

/-! ## Changes -/

/-- Parameters of their own that hold what these hold. Devices are not doubled:
a copy holds the same ones. -/
def copy (p : Parameters) : Parameters where
  audio := p.audio
  video := p.video
  errorCorrection := p.errorCorrection
  text := p.text
  feedback := p.feedback
  network := p.network
  recording := p.recording
  earlyMedia := p.earlyMedia
  encryption := p.encryption
  encryptionMandatory := p.encryptionMandatory
  updateAfterIce := p.updateAfterIce
  updateAfterIceWithDtls := p.updateAfterIceWithDtls
  bundle := p.bundle
  microphone := p.microphone
  attributes := p.attributes
  streamAttributes := p.streamAttributes
  input? := p.input?
  output? := p.output?

@[simp] theorem copy_eq (p : Parameters) : p.copy = p := rfl

/-- Tells the peer about recording; what was not spoken of is then off. -/
def setRecordAware (p : Parameters) (aware : Bool) : Parameters :=
  let state := if aware ∧ p.recording.state = .unspoken then .off else p.recording.state
  { p with recording := { p.recording with aware, state } }

/-- Limits the media once the network proves slow; the limits are never
lifted again. -/
def adapt (p : Parameters) (edge : Settings.Edge) (pingMs : Int) : Parameters :=
  if NetworkProfile.ofPing edge pingMs = .edge ∨ p.network.lowBandwidth then
    { p with
      network := {
        lowBandwidth := true
        upKbps := edge.bandwidthKbps
        downKbps := edge.bandwidthKbps
        upPacketMs := edge.packetTimeMs
        downPacketMs := edge.packetTimeMs }
      video := { p.video with enabled := false } }
  else p

/-- Takes over the mode that was agreed on. -/
def commit (p : Parameters) (agreement : Encryption.Agreement) : Parameters :=
  { p with encryption := agreement.mode }

inductive Setting
  | audioEnabled (value : Bool)
  | audioDirection (value : Sdp.Direction)
  | audioMulticast (value : Bool)
  | audioLimit (kbps : UInt32)
  | audioCodec (codec? : Option Codec)
  | videoEnabled (value : Bool)
  | videoDirection (value : Sdp.Direction)
  | videoMulticast (value : Bool)
  | videoCodec (codec? : Option Codec)
  | receivedRate (rate : FrameRate)
  | sentRate (rate : FrameRate)
  | receivedDefinition (definition? : Option VideoDefinition)
  | sentDefinition (definition? : Option VideoDefinition)
  | videoDownload (kbps : UInt32)
  | errorCorrectionEnabled (value : Bool)
  | errorCorrectionCodec (codec? : Option Codec)
  | textEnabled (value : Bool)
  | textKeepalive (ms : UInt32)
  | textCodec (codec? : Option Codec)
  | feedbackEnabled (value : Bool)
  | feedbackInterval (ms : UInt32)
  | implicitFeedback (value : Bool)
  | lowBandwidth (value : Bool)
  | upBandwidth (kbps : UInt32)
  | downBandwidth (kbps : UInt32)
  | upPacketTime (ms : UInt32)
  | downPacketTime (ms : UInt32)
  | recordPath (path? : Option Path)
  | recordAware (value : Bool)
  | recordingState (state : RecordingState)
  | earlyMedia (value : Bool)
  | encryption (mode : Encryption.Mode)
  | encryptionMandatory (value : Bool)
  | updateAfterIce (value : Bool)
  | updateAfterIceWithDtls (value : Bool)
  | bundle (value : Bool)
  | microphone (value : Bool)
  | addAttribute (name : String) (value? : Option String)
  | clearAttributes
  | addStreamAttribute (stream : Stream) (name : String) (value? : Option String)
  | clearStreamAttributes (stream : Stream)
  | input (device? : Option Device)
  | output (device? : Option Device)
  deriving Repr

def set (p : Parameters) : Setting → Parameters
  | .audioEnabled enabled => { p with audio := { p.audio with enabled } }
  | .audioDirection direction => { p with audio := { p.audio with direction } }
  | .audioMulticast multicast => { p with audio := { p.audio with multicast } }
  | .audioLimit limitKbps => { p with audio := { p.audio with limitKbps } }
  | .audioCodec codec? => { p with audio := { p.audio with codec? } }
  | .videoEnabled enabled => { p with video := { p.video with enabled } }
  | .videoDirection direction => { p with video := { p.video with direction } }
  | .videoMulticast multicast => { p with video := { p.video with multicast } }
  | .videoCodec codec? => { p with video := { p.video with codec? } }
  | .receivedRate receivedRate => { p with video := { p.video with receivedRate } }
  | .sentRate sentRate => { p with video := { p.video with sentRate } }
  | .receivedDefinition receivedDefinition? =>
    { p with video := { p.video with receivedDefinition? } }
  | .sentDefinition sentDefinition? => { p with video := { p.video with sentDefinition? } }
  | .videoDownload downloadKbps => { p with video := { p.video with downloadKbps } }
  | .errorCorrectionEnabled enabled =>
    { p with errorCorrection := { p.errorCorrection with enabled } }
  | .errorCorrectionCodec codec? =>
    { p with errorCorrection := { p.errorCorrection with codec? } }
  | .textEnabled enabled => { p with text := { p.text with enabled } }
  | .textKeepalive keepaliveMs => { p with text := { p.text with keepaliveMs } }
  | .textCodec codec? => { p with text := { p.text with codec? } }
  | .feedbackEnabled enabled =>
    { p with feedback := { p.feedback with enabled, chosen := true } }
  | .feedbackInterval intervalMs => { p with feedback := { p.feedback with intervalMs } }
  | .implicitFeedback implicit => { p with feedback := { p.feedback with implicit } }
  | .lowBandwidth lowBandwidth => { p with network := { p.network with lowBandwidth } }
  | .upBandwidth upKbps => { p with network := { p.network with upKbps } }
  | .downBandwidth downKbps => { p with network := { p.network with downKbps } }
  | .upPacketTime upPacketMs => { p with network := { p.network with upPacketMs } }
  | .downPacketTime downPacketMs => { p with network := { p.network with downPacketMs } }
  | .recordPath path? => { p with recording := { p.recording with path? } }
  | .recordAware aware => p.setRecordAware aware
  | .recordingState state => { p with recording := { p.recording with state } }
  | .earlyMedia earlyMedia => { p with earlyMedia }
  | .encryption encryption => { p with encryption }
  | .encryptionMandatory encryptionMandatory => { p with encryptionMandatory }
  | .updateAfterIce updateAfterIce => { p with updateAfterIce }
  | .updateAfterIceWithDtls updateAfterIceWithDtls => { p with updateAfterIceWithDtls }
  | .bundle bundle => { p with bundle }
  | .microphone microphone => { p with microphone }
  | .addAttribute name value? => { p with attributes := p.attributes.add name value? }
  | .clearAttributes => { p with attributes := [] }
  | .addStreamAttribute stream name value? =>
    { p with streamAttributes := p.streamAttributes.add stream name value? }
  | .clearStreamAttributes stream =>
    { p with streamAttributes := p.streamAttributes.clear stream }
  | .input input? => { p with input? }
  | .output output? => { p with output? }

end Parameters

/-! ## Comparison -/

def Video.same (a b : Video) : Bool :=
  { a with receivedRate := b.receivedRate, sentRate := b.sentRate } = b
    && a.receivedRate.same b.receivedRate && a.sentRate.same b.sentRate

def Recording.same (a b : Recording) : Bool :=
  { a with path? := b.path? } = b
    && match a.path?, b.path? with
      | none, none => true
      | some p, some q => p.same q
      | _, _ => false

/-- Equal as settings: frame rates as numbers, paths by component, devices by
identity, everything else by value. -/
def Parameters.same (a b : Parameters) : Bool :=
  { a with
    video := b.video, recording := b.recording, input? := b.input?, output? := b.output? } = b
    && a.video.same b.video && a.recording.same b.recording
    && Device.sameOption a.input? b.input? && Device.sameOption a.output? b.output?

end Switchboard.Call
