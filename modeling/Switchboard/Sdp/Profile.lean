import Switchboard.Encryption.Mode

/-!
# Transport profiles

The profile in a media line of a session description says whether the media
are encrypted, whether a DTLS handshake keys them, and whether feedback is
sent. A mode that keys the media on their own path hides behind a plain
profile.
-/

namespace Switchboard.Sdp

inductive Profile
  | avp
  | avpf
  | savp
  | savpf
  | tlsSavp
  | tlsSavpf
  deriving DecidableEq, Repr

/-- A text that names no profile, trimmed and in upper case. -/
structure UnknownProfile where
  text : String
  deriving DecidableEq, Repr

def UnknownProfile.message (u : UnknownProfile) : String :=
  "Invalid SDP attribute: unknown media protocol " ++ u.text

namespace Profile

def all : List Profile :=
  [avp, avpf, savp, savpf, tlsSavp, tlsSavpf]

def name : Profile → String
  | avp => "RTP/AVP"
  | avpf => "RTP/AVPF"
  | savp => "RTP/SAVP"
  | savpf => "RTP/SAVPF"
  | tlsSavp => "UDP/TLS/RTP/SAVP"
  | tlsSavpf => "UDP/TLS/RTP/SAVPF"

/-- Leaves no room for media in the clear. -/
def isSecure : Profile → Bool
  | avp | avpf => false
  | _ => true

def isDtls : Profile → Bool
  | tlsSavp | tlsSavpf => true
  | _ => false

def hasFeedback : Profile → Bool
  | avpf | savpf | tlsSavpf => true
  | _ => false

def ofMode (mode : Encryption.Mode) (feedback : Bool) : Profile :=
  match mode, feedback with
  | .srtp, true => savpf
  | .srtp, false => savp
  | .dtls, true => tlsSavpf
  | .dtls, false => tlsSavp
  | _, true => avpf
  | _, false => avp

def parse (s : String) : Except UnknownProfile Profile :=
  let folded := String.ofList (Text.upper (Text.trim s.toList))
  match all.find? fun p => p.name = folded with
  | some p => .ok p
  | none => .error ⟨folded⟩

theorem parse_name (p : Profile) : parse p.name = .ok p := by
  cases p <;> rfl

end Profile

end Switchboard.Sdp
