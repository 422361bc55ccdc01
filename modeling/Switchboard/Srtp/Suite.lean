import Switchboard.Text.Cut
import Switchboard.Text.Fold

/-!
# SRTP suites

A suite is a cipher with its authentication tag, and two flags for streams
that are authenticated only. It is written as the name of the cipher followed
by a word for each flag; names are read in any letter case and the flag words
in any order and number.
-/

namespace Switchboard.Srtp

/-! ## Ciphers -/

inductive Cipher
  | aesCm128Sha80
  | aesCm128Sha32
  | aesCm256Sha80
  | aesCm256Sha32
  | aesGcm128
  | aesGcm256
  deriving DecidableEq, Repr

/-- Why a text is no suite. -/
inductive Error
  /-- The text names no cipher. -/
  | unknownCipher (text : String)
  /-- A word after the cipher is no flag. -/
  | unknownModifier (word suite : String)
  deriving DecidableEq, Repr

def Error.message : Error → String
  | unknownCipher text => "Invalid SRTP crypto suite: " ++ text
  | unknownModifier word suite =>
    "Invalid SRTP crypto suite: unknown modifier " ++ word ++ " in " ++ suite

namespace Cipher

def all : List Cipher :=
  [aesCm128Sha80, aesCm128Sha32, aesCm256Sha80, aesCm256Sha32, aesGcm128, aesGcm256]

def name : Cipher → String
  | aesCm128Sha80 => "AES_CM_128_HMAC_SHA1_80"
  | aesCm128Sha32 => "AES_CM_128_HMAC_SHA1_32"
  | aesCm256Sha80 => "AES_256_CM_HMAC_SHA1_80"
  | aesCm256Sha32 => "AES_256_CM_HMAC_SHA1_32"
  | aesGcm128 => "AEAD_AES_128_GCM"
  | aesGcm256 => "AEAD_AES_256_GCM"

/-- Authentication is part of the cipher. -/
def isAead : Cipher → Bool
  | aesGcm128 | aesGcm256 => true
  | _ => false

/-- Length of the master key in bytes. -/
def keyLength : Cipher → Nat
  | aesCm128Sha80 | aesCm128Sha32 | aesGcm128 => 16
  | aesCm256Sha80 | aesCm256Sha32 | aesGcm256 => 32

/-- Length of the master salt in bytes. -/
def saltLength (c : Cipher) : Nat :=
  if c.isAead then 12 else 14

/-- Length of the authentication tag in bits. -/
def tagBits : Cipher → Nat
  | aesCm128Sha80 | aesCm256Sha80 => 80
  | aesCm128Sha32 | aesCm256Sha32 => 32
  | aesGcm128 | aesGcm256 => 128

/-- The cipher of this name in any letter case, blanks around it dropped. -/
def read (s : List Char) : Except Error Cipher :=
  let s := Text.trim s
  match all.find? fun c => Text.sameFolded c.name.toList s with
  | some c => .ok c
  | none => .error (.unknownCipher (String.ofList s))

def parse (s : String) : Except Error Cipher :=
  read s.toList

end Cipher

/-! ## Suites -/

/-- A word that exempts one kind of packet from encryption. -/
inductive Modifier
  | unencryptedRtp
  | unencryptedRtcp
  deriving DecidableEq, Repr

namespace Modifier

def word : Modifier → String
  | unencryptedRtp => "UNENCRYPTED_SRTP"
  | unencryptedRtcp => "UNENCRYPTED_SRTCP"

def ofWord? (s : List Char) : Option Modifier :=
  [unencryptedRtp, unencryptedRtcp].find? fun m => Text.sameFolded s m.word.toList

end Modifier

structure Suite where
  cipher : Cipher
  /-- RTP payloads are authenticated only. -/
  unencryptedRtp : Bool := false
  /-- RTCP packets are authenticated only. -/
  unencryptedRtcp : Bool := false
  deriving DecidableEq, Repr

namespace Suite

def isFullyEncrypted (s : Suite) : Bool :=
  !s.unencryptedRtp && !s.unencryptedRtcp

def modify (s : Suite) : Modifier → Suite
  | .unencryptedRtp => { s with unencryptedRtp := true }
  | .unencryptedRtcp => { s with unencryptedRtcp := true }

/-- Modifiers of a suite, in the order in which they are written. -/
def modifiers (s : Suite) : List Modifier :=
  (if s.unencryptedRtp then [.unencryptedRtp] else []) ++
    (if s.unencryptedRtcp then [.unencryptedRtcp] else [])

/-- A blank and the word of each modifier. -/
def writeModifiers (s : Suite) : List Char :=
  s.modifiers.flatMap fun m => ' ' :: m.word.toList

def write (s : Suite) : List Char :=
  s.cipher.name.toList ++ s.writeModifiers

def text (s : Suite) : String :=
  String.ofList s.write

/-- Applies words that all have to be modifiers; `whole` is the text they
belong to. -/
def modifyAll (whole : List Char) (s : Suite) : List (List Char) → Except Error Suite
  | [] => .ok s
  | word :: rest =>
    match Modifier.ofWord? word with
    | some m => modifyAll whole (s.modify m) rest
    | none =>
      .error (.unknownModifier (String.ofList word) (String.ofList (Text.trim whole)))

/-- Applies the words that are modifiers and passes over the others. -/
def modifyKnown (s : Suite) (words : List (List Char)) : Suite :=
  (words.filterMap Modifier.ofWord?).foldl modify s

def read (s : List Char) : Except Error Suite :=
  match Text.words s with
  | [] => .error (.unknownCipher (String.ofList s))
  | base :: rest =>
    match Cipher.read base with
    | .error e => .error e
    | .ok cipher => modifyAll s { cipher } rest

def parse (s : String) : Except Error Suite :=
  read s.toList

/-! ## Lists of suites -/

/-- What is offered when nothing is configured. -/
def defaults : List Suite :=
  [{ cipher := .aesCm128Sha80 }, { cipher := .aesCm128Sha32 },
   { cipher := .aesCm256Sha80 }, { cipher := .aesCm256Sha32 }]

end Suite

end Switchboard.Srtp
