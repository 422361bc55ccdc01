import Switchboard.Encryption.Negotiation
import Switchboard.Json.Build
import Switchboard.Sdp.CryptoLine
import Switchboard.Sdp.Profile

/-!
# Reports on encryption

What a party holds, what it offers and what was agreed on, as JSON. Suites
are given by their texts and algorithms by their short tokens.
-/

namespace Switchboard

def Reason.report (r : Reason) : Json :=
  .record [("name", r.name), ("status", Json.orNull (fun n => (n : Json)) r.status?),
    ("rejection", r.isRejection), ("text", r.phrase)]

namespace Srtp

def Cipher.report (c : Cipher) : Json :=
  .record [("name", c.name), ("key", c.keyLength), ("salt", c.saltLength),
    ("tag_bits", c.tagBits), ("aead", c.isAead)]

/-- Cipher and modifiers of a suite, as members of its report. -/
def Suite.members (s : Suite) : List (String × Json) :=
  [("cipher", s.cipher.name), ("unencrypted_srtp", s.unencryptedRtp),
   ("unencrypted_srtcp", s.unencryptedRtcp), ("fully_encrypted", s.isFullyEncrypted),
   ("modifiers", Json.texts (s.modifiers.map (·.word))), ("text", s.text)]

def Suite.reportAll (suites : List Suite) : Json :=
  Json.texts (suites.map (·.text))

end Srtp

namespace Zrtp

def tokens {α : Type} [Category α] (algorithms : List α) : Json :=
  Json.texts (algorithms.map Category.token)

def Preferences.report (p : Preferences) : Json :=
  .record [("ciphers", tokens p.ciphers), ("hashes", tokens p.hashes),
    ("auth_tags", tokens p.authTags), ("key_agreements", tokens p.keyAgreements),
    ("sas", tokens p.sas)]

def Algorithms.report (a : Algorithms) : Json :=
  .record [("cipher", Category.token a.cipher), ("hash", Category.token a.hash),
    ("auth_tag", Category.token a.authTag), ("key_agreement", Category.token a.keyAgreement),
    ("sas", Category.token a.sas), ("post_quantum", a.isPostQuantum)]

end Zrtp

namespace Encryption

def Capabilities.report (c : Capabilities) : Json :=
  .record [("srtp", Srtp.Suite.reportAll c.suites),
    ("zrtp", Json.orNull Zrtp.Preferences.report c.zrtp?), ("dtls", c.dtls),
    ("mandatory", c.mandatory), ("empty", c.isEmpty),
    ("offers", .list (Mode.all.map fun mode => .bool (c.offers mode)))]

def Policy.members (p : Policy) : List (String × Json) :=
  [("mode", p.mode.name), ("mandatory", p.mandatory), ("accept_any", p.acceptAny),
   ("srtp", Srtp.Suite.reportAll p.catalog.suites), ("zrtp", p.catalog.zrtp.report),
   ("dtls", p.catalog.dtls), ("advertised", p.advertised.report)]

/-- What the keys come from, unless the mode says all. -/
def Agreement.kind? : Agreement → Option String
  | srtp _ => some "srtp"
  | zrtp _ => some "zrtp"
  | _ => none

def Agreement.report (a : Agreement) : Json :=
  .record [("mode", a.mode.name), ("encrypted", a.isEncrypted),
    ("post_quantum", a.isPostQuantum), ("suite_kind", Json.orNull .text a.kind?),
    ("srtp", Json.orNull (fun s => .text s.text) a.suite?),
    ("zrtp", Json.orNull Zrtp.Algorithms.report a.algorithms?)]

end Encryption

namespace Sdp

def Profile.report (p : Profile) : Json :=
  .record [("proto", p.name), ("secure", p.isSecure), ("dtls", p.isDtls),
    ("avpf", p.hasFeedback)]

def CryptoLine.report (c : CryptoLine) : Json :=
  .record [("tag", c.tag), ("suite", .record c.suite.members), ("key_params", c.key),
    ("line", c.line)]

end Sdp

end Switchboard
