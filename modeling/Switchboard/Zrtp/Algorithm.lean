import Switchboard.Text.Cut
import Switchboard.Text.Fold

/-!
# ZRTP algorithms

A ZRTP session needs one algorithm of each of five categories. An algorithm
has a short token and a full name made of its category and its token; either
one names it, in any letter case.
-/

namespace Switchboard.Zrtp

inductive Cipher
  | aes1
  | aes2
  | aes3
  | twofish1
  | twofish2
  | twofish3
  deriving DecidableEq, Repr

inductive Hash
  | s256
  | s384
  | s512
  | n256
  | n384
  deriving DecidableEq, Repr

inductive AuthTag
  | hs32
  | hs80
  | sk32
  | sk64
  | gcm
  deriving DecidableEq, Repr

inductive KeyAgreement
  | dh2k
  | dh3k
  | ec25
  | ec38
  | ec52
  | x255
  | x448
  | k255
  | k448
  | kyb1
  | kyb2
  | kyb3
  | hqc1
  | hqc2
  | hqc3
  | k255Kyb512
  | k255Hqc128
  | k448Kyb1024
  | k448Hqc256
  | k255Kyb512Hqc128
  | k448Kyb1024Hqc256
  deriving DecidableEq, Repr

/-- Rendering of the short authentication string. -/
inductive Sas
  | b32
  | b256
  deriving DecidableEq, Repr

/-! ## Categories -/

/-- A category of algorithms: its label in full names, its algorithms in
order, and their short tokens. -/
class Category (α : Type) where
  label : String
  all : List α
  token : α → String

instance : Category Cipher where
  label := "CIPHER"
  all := [.aes1, .aes2, .aes3, .twofish1, .twofish2, .twofish3]
  token
    | .aes1 => "AES1"
    | .aes2 => "AES2"
    | .aes3 => "AES3"
    | .twofish1 => "2FS1"
    | .twofish2 => "2FS2"
    | .twofish3 => "2FS3"

instance : Category Hash where
  label := "HASH"
  all := [.s256, .s384, .s512, .n256, .n384]
  token
    | .s256 => "S256"
    | .s384 => "S384"
    | .s512 => "S512"
    | .n256 => "N256"
    | .n384 => "N384"

instance : Category AuthTag where
  label := "AUTHTAG"
  all := [.hs32, .hs80, .sk32, .sk64, .gcm]
  token
    | .hs32 => "HS32"
    | .hs80 => "HS80"
    | .sk32 => "SK32"
    | .sk64 => "SK64"
    | .gcm => "GCM"

instance : Category KeyAgreement where
  label := "KEY_AGREEMENT"
  all := [.dh2k, .dh3k, .ec25, .ec38, .ec52, .x255, .x448, .k255, .k448, .kyb1, .kyb2, .kyb3,
    .hqc1, .hqc2, .hqc3, .k255Kyb512, .k255Hqc128, .k448Kyb1024, .k448Hqc256,
    .k255Kyb512Hqc128, .k448Kyb1024Hqc256]
  token
    | .dh2k => "DH2K"
    | .dh3k => "DH3K"
    | .ec25 => "EC25"
    | .ec38 => "EC38"
    | .ec52 => "EC52"
    | .x255 => "X255"
    | .x448 => "X448"
    | .k255 => "K255"
    | .k448 => "K448"
    | .kyb1 => "KYB1"
    | .kyb2 => "KYB2"
    | .kyb3 => "KYB3"
    | .hqc1 => "HQC1"
    | .hqc2 => "HQC2"
    | .hqc3 => "HQC3"
    | .k255Kyb512 => "K255_KYB512"
    | .k255Hqc128 => "K255_HQC128"
    | .k448Kyb1024 => "K448_KYB1024"
    | .k448Hqc256 => "K448_HQC256"
    | .k255Kyb512Hqc128 => "K255_KYB512_HQC128"
    | .k448Kyb1024Hqc256 => "K448_KYB1024_HQC256"

instance : Category Sas where
  label := "SAS"
  all := [.b32, .b256]
  token
    | .b32 => "B32"
    | .b256 => "B256"

/-! ## Strength -/

/-- A post-quantum key encapsulation, alone or joined with a curve. -/
def KeyAgreement.isPostQuantum : KeyAgreement → Bool
  | kyb1 | kyb2 | kyb3 | hqc1 | hqc2 | hqc3 | k255Kyb512 | k255Hqc128 | k448Kyb1024
  | k448Hqc256 | k255Kyb512Hqc128 | k448Kyb1024Hqc256 => true
  | _ => false

/-- Calls for the strongest hash and cipher that both sides hold. -/
def KeyAgreement.needsStrong (k : KeyAgreement) : Bool :=
  k.isPostQuantum || k = x448 || k = k448 || k = ec52

/-! ## Names -/

variable {α : Type} [Category α]

/-- What a full name starts with. -/
def nameHead (α : Type) [Category α] : List Char :=
  "MS_ZRTP_".toList ++ (Category.label α).toList ++ ['_']

def fullName (a : α) : String :=
  String.ofList (nameHead α ++ (Category.token a).toList)

/-- A text that names no algorithm of its category. -/
structure Unknown where
  category : String
  text : String
  deriving DecidableEq, Repr

def Unknown.message (u : Unknown) : String :=
  "Unknown ZRTP " ++ u.category ++ " algorithm: " ++ u.text

/-- The text without the head of a full name, if it starts with one and more
follows. -/
def bareToken (α : Type) [Category α] (s : List Char) : List Char :=
  let n := (nameHead α).length
  if n < s.length ∧ Text.sameFolded (s.take n) (nameHead α) then s.drop n else s

def read (α : Type) [Category α] (s : List Char) : Except Unknown α :=
  let s := Text.trim s
  let bare := bareToken α s
  match (Category.all (α := α)).find? fun a =>
      Text.sameFolded (Category.token a).toList bare with
  | some a => .ok a
  | none => .error ⟨Category.label α, String.ofList s⟩

def parse (α : Type) [Category α] (s : String) : Except Unknown α :=
  read α s.toList

/-- The algorithms of a comma separated list; unknown entries are passed
over. -/
def readList (α : Type) [Category α] (s : List Char) : List α :=
  (Text.entries ',' s).filterMap fun entry => (read α entry).toOption

/-- The algorithms of a configured list, none when there is no list. -/
def parseList (α : Type) [Category α] (list? : Option String) : List α :=
  match list? with
  | none => []
  | some s => readList α s.toList

end Switchboard.Zrtp
