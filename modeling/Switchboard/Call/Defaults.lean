import Switchboard.Call.Parameters

/-!
# Parameters for a new call

A call starts from what is configured. A conference decides about video
before the configuration does, but nobody gets video where video is disabled.
-/

namespace Switchboard.Call

/-- Who starts the call. -/
inductive Initiative
  | incoming
  | outgoing
  deriving DecidableEq, Repr

/-- What a call starts from. -/
structure Defaults where
  media : Settings.Media := {}
  /-- Video setting of the conference that the call belongs to. -/
  conferenceVideo? : Option Bool := none
  input? : Option Device := none
  output? : Option Device := none
  deriving DecidableEq, Repr

/-- A call of this initiative starts with video. -/
def Defaults.wantsVideo (d : Defaults) (initiative : Initiative) : Bool :=
  d.conferenceVideo?.getD (match initiative with
    | .outgoing => d.media.videoOnOutgoing
    | .incoming => d.media.videoOnIncoming)

def Parameters.initial (d : Defaults) (initiative : Initiative) : Parameters :=
  let media := d.media
  let start : Parameters := {
    audio := { multicast := media.audioMulticast }
    video := {
      enabled := d.wantsVideo initiative && media.videoEnabled
      multicast := media.videoMulticast }
    text := { enabled := media.textEnabled, keepaliveMs := media.textKeepaliveMs }
    feedback := {
      enabled := media.feedbackEnabled
      intervalMs := media.feedbackIntervalSecs.toUInt32 * 1000
      implicit := media.implicitFeedback }
    earlyMedia := media.earlyMedia
    encryption := media.encryption
    encryptionMandatory := media.encryptionMandatory
    updateAfterIce := media.updateAfterIce
    updateAfterIceWithDtls := media.updateAfterIceWithDtls
    bundle := media.bundle
    microphone := media.microphone
    input? := d.input?
    output? := d.output? }
  start.setRecordAware media.recordAware

end Switchboard.Call
