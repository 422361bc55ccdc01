import Switchboard.Address.Basic
import Switchboard.Text.Cut
import Switchboard.Text.Numeral

/-!
# Reading addresses

An address is written as a bare URI, or as an optional display name, the URI
in angle brackets and parameters after it. Blanks around the parts are
dropped and quotes around the display name too. The first fault met from left
to right is the one reported.
-/

namespace Switchboard.Address

open Text

inductive Error
  | empty
  | unclosedBracket (text : String)
  | missingScheme (uri : String)
  | unsupportedScheme (scheme : String)
  | unclosedHost (authority : String)
  | invalidPort (port : String)
  | missingHost (uri : String)
  deriving DecidableEq, Repr

def Error.message : Error → String
  | empty => "Invalid address: empty address"
  | unclosedBracket text => "Invalid address: unterminated '<' in " ++ text
  | missingScheme uri => "Invalid address: missing scheme in " ++ uri
  | unsupportedScheme scheme => "Invalid address: unsupported scheme " ++ scheme
  | unclosedHost authority => "Invalid address: unterminated IPv6 host " ++ authority
  | invalidPort port => "Invalid address: invalid port " ++ port
  | missingHost uri => "Invalid address: missing host in " ++ uri

/-- The first equals sign separates a parameter's name from its value. -/
def readParam (s : List Char) : Param :=
  match cutFirst '=' s with
  | some (name, value) =>
    { name := String.ofList (trim name), value? := some (String.ofList (trim value)) }
  | none => { name := String.ofList s, value? := none }

def readParams (s : List Char) : List Param :=
  (entries ';' s).map readParam

def readPort (s : List Char) : Except Error UInt16 :=
  match natural? UInt16.size s with
  | some n => .ok (UInt16.ofNat n)
  | none => .error (.invalidPort (String.ofList s))

/-- Host and port. A host in square brackets may hold colons; what follows
its closing bracket counts only when it starts with a colon. -/
def readHostPort (s : List Char) : Except Error (List Char × Option UInt16) :=
  let s := trim s
  match s with
  | '[' :: inner =>
    match cutFirst ']' inner with
    | none => .error (.unclosedHost (String.ofList s))
    | some (host, ':' :: port) =>
      (readPort port).map fun port => ('[' :: host ++ [']'], some port)
    | some (host, _) => .ok ('[' :: host ++ [']'], none)
  | _ =>
    match cutLast ':' s with
    | some (host, port) => (readPort port).map fun port => (host, some port)
    | none => .ok (s, none)

/-- User, and what follows the last at sign. An empty user is no user. -/
def splitUser (s : List Char) : Option (List Char) × List Char :=
  match cutLast '@' s with
  | some ([], rest) => (none, rest)
  | some (user, rest) => (some user, rest)
  | none => (none, s)

def readUri (uri : List Char) : Except Error Address :=
  match cutFirst ':' uri with
  | none => .error (.missingScheme (String.ofList uri))
  | some (scheme, rest) =>
    let scheme := lower (trim scheme)
    match Scheme.ofName? scheme with
    | none => .error (.unsupportedScheme (String.ofList scheme))
    | some scheme =>
      let authority := rest.takeWhile (· ≠ ';')
      let (user?, hostPort) := splitUser authority
      match readHostPort hostPort with
      | .error e => .error e
      | .ok ([], _) => .error (.missingHost (String.ofList uri))
      | .ok (host, port?) =>
        .ok { scheme, user? := user?.map String.ofList, host := String.ofList host,
              port?, uriParams := readParams (rest.dropWhile (· ≠ ';')) }

/-- Text before the bracket, without blanks and quotes around it; nothing
left is no name. -/
def readDisplayName (s : List Char) : Option String :=
  match trim (strip (· = '"') (trim s)) with
  | [] => none
  | name => some (String.ofList name)

def read (s : List Char) : Except Error Address :=
  let s := trim s
  if s = [] then .error .empty
  else
    match cutFirst '<' s with
    | none => readUri s
    | some (before, inside) =>
      match cutFirst '>' inside with
      | none => .error (.unclosedBracket (String.ofList s))
      | some (uri, after) =>
        (readUri uri).map fun a =>
          { a with displayName? := readDisplayName before, params := readParams after }

def parse (s : String) : Except Error Address :=
  read s.toList

end Switchboard.Address
