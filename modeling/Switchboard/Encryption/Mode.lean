import Switchboard.Text.Blank
import Switchboard.Text.Fold

/-!
# Encryption modes

How the media of a call are keyed: not at all, through the session
description, or by an exchange on the media path itself.
-/

namespace Switchboard.Encryption

inductive Mode
  /-- No encryption. -/
  | plain
  /-- Keys travel in the session description. -/
  | srtp
  /-- Keys come from a ZRTP exchange on the media path. -/
  | zrtp
  /-- Keys come from a DTLS handshake on the media path. -/
  | dtls
  deriving DecidableEq, Repr

namespace Mode

def isEncrypted : Mode → Bool
  | plain => false
  | _ => true

def name : Mode → String
  | plain => "none"
  | srtp => "srtp"
  | zrtp => "zrtp"
  | dtls => "dtls"

/-- Name of the mode in diagnostics. -/
def label : Mode → String
  | plain => "None"
  | srtp => "Srtp"
  | zrtp => "Zrtp"
  | dtls => "Dtls"

def all : List Mode :=
  [plain, srtp, zrtp, dtls]

/-- The mode of exactly this name. -/
def ofName? (name : String) : Option Mode :=
  all.find? fun mode => mode.name = name

/-- The mode of this name, in any letter case. -/
def ofFoldedName? (name : String) : Option Mode :=
  all.find? fun mode => Text.sameName mode.name name

/-- A text that names no mode, trimmed and in lower case. -/
structure Unknown where
  text : String
  deriving DecidableEq, Repr

def Unknown.message (u : Unknown) : String :=
  "Validation error: unknown media encryption: " ++ u.text

/-- Besides the names, an empty text asks for no encryption and `dtls-srtp`
for DTLS. -/
def parse (s : String) : Except Unknown Mode :=
  match String.ofList (Text.lower (Text.trim s.toList)) with
  | "none" => .ok plain
  | "" => .ok plain
  | "srtp" => .ok srtp
  | "zrtp" => .ok zrtp
  | "dtls" => .ok dtls
  | "dtls-srtp" => .ok dtls
  | other => .error ⟨other⟩

theorem ofName?_name (mode : Mode) : ofName? mode.name = some mode := by
  cases mode <;> decide

end Mode

end Switchboard.Encryption
