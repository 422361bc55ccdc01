import Switchboard.Srtp.Suite
import Switchboard.Text.Numeral

/-!
# Crypto lines

A crypto line offers one SRTP suite with its key: a tag, the cipher, the key
text and session parameters, with blanks between them. The modifiers of a
suite are among the session parameters; the others are not for this reader
and are passed over.
-/

namespace Switchboard.Sdp

structure CryptoLine where
  tag : UInt32
  suite : Srtp.Suite
  key : String
  deriving DecidableEq, Repr

namespace CryptoLine

/-- What is wrong with a crypto line; each fault but the last quotes the
line. -/
inductive Error
  | noTag (line : String)
  | noSuite (line : String)
  | noKey (line : String)
  | badSuite (cause : Srtp.Error)
  deriving DecidableEq, Repr

def Error.message : Error → String
  | noTag line => "Invalid SDP attribute: missing crypto tag in " ++ line
  | noSuite line => "Invalid SDP attribute: missing crypto suite in " ++ line
  | noKey line => "Invalid SDP attribute: missing key params in " ++ line
  | badSuite cause => cause.message

def readTag (s : List Char) : Option UInt32 :=
  (Text.natural? UInt32.size s).map UInt32.ofNat

def read (s : List Char) : Except Error CryptoLine :=
  let line := String.ofList s
  match Text.words s with
  | [] => .error (.noTag line)
  | tag :: fields =>
    match readTag tag with
    | none => .error (.noTag line)
    | some tag =>
      match fields with
      | [] => .error (.noSuite line)
      | [_] => .error (.noKey line)
      | cipher :: key :: parameters =>
        match Srtp.Cipher.read cipher with
        | .error e => .error (.badSuite e)
        | .ok cipher =>
          .ok { tag, suite := Srtp.Suite.modifyKnown { cipher } parameters,
                key := String.ofList key }

def parse (s : String) : Except Error CryptoLine :=
  read s.toList

/-- The value part of the line. -/
def write (c : CryptoLine) : List Char :=
  Text.decimal c.tag.toNat ++ ' ' :: c.suite.cipher.name.toList ++ ' ' :: c.key.toList
    ++ c.suite.writeModifiers

/-- The whole attribute line. -/
def line (c : CryptoLine) : String :=
  String.ofList ("a=crypto:".toList ++ c.write)

/-- Lines offering these suites in order, tags counting from one. The key text
of a suite may depend on its place, as every line may get a new one. -/
def offerEach (suites : List Srtp.Suite) (key : Nat → Srtp.Suite → String) : List CryptoLine :=
  suites.mapIdx fun i suite => { tag := UInt32.ofNat (i + 1), suite, key := key i suite }

def offer (suites : List Srtp.Suite) (key : Srtp.Suite → String) : List CryptoLine :=
  offerEach suites fun _ => key

end CryptoLine

end Switchboard.Sdp
