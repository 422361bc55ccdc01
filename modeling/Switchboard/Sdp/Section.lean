import Switchboard.Encryption.Capabilities
import Switchboard.Sdp.CryptoLine
import Switchboard.Sdp.Profile

/-!
# Media sections

A media section tells what its sender can do: every crypto line it offers
that can be read adds a suite, a line with a ZRTP hash announces ZRTP with
the algorithms every party holds, and a fingerprint announces DTLS. The
profile alone says whether encryption is insisted on.
-/

namespace Switchboard.Sdp

/-- An attribute line: a name, and the value after its first colon. -/
structure Attribute where
  name : List Char
  value? : Option (List Char)
  deriving DecidableEq, Repr

namespace Attribute

/-- The type letter in front of the name may be left out. Blanks are dropped
around the line, and around name and value when there is a colon. -/
def read (line : List Char) : Attribute :=
  let line := Text.trim line
  let body := (Text.dropHead? ['a', '='] line).getD line
  match Text.cutFirst ':' body with
  | some (name, value) => { name := Text.trim name, value? := some (Text.trim value) }
  | none => { name := body, value? := none }

/-- The suite this attribute offers, if it is a crypto line that can be
read. -/
def suite? (a : Attribute) : Option Srtp.Suite :=
  if a.name = "crypto".toList then
    a.value?.bind fun value => (CryptoLine.read value).toOption.map (·.suite)
  else none

def announcesZrtp (a : Attribute) : Bool :=
  a.name = "zrtp-hash".toList

def announcesDtls (a : Attribute) : Bool :=
  a.name = "fingerprint".toList && a.value?.isSome

end Attribute

/-- A profile and the attribute lines of a media section. -/
structure Section where
  profile : Profile
  lines : List String
  deriving DecidableEq, Repr

namespace Section

def attributes (s : Section) : List Attribute :=
  s.lines.map fun line => Attribute.read line.toList

def capabilities (s : Section) : Encryption.Capabilities where
  suites := Ranked.ofList (s.attributes.filterMap Attribute.suite?)
  zrtp? := if s.attributes.any Attribute.announcesZrtp then some .defaults else none
  dtls := s.attributes.any Attribute.announcesDtls
  mandatory := s.profile.isSecure

end Section

/-- Capabilities that a section with this profile text and these lines
tells. -/
def capabilitiesOf (profile : String) (lines : List String) :
    Except UnknownProfile Encryption.Capabilities :=
  (Profile.parse profile).map fun profile => Section.capabilities { profile, lines }

end Switchboard.Sdp
