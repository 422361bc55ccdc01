import Switchboard.Text.Blank
import Switchboard.Text.Fold

/-!
# Bodies of requests

A body has a media type, maybe a disposition, and text. Media types are
compared by type and subtype only: parameters such as the character set and
the letter case do not count.
-/

namespace Switchboard

/-- A media type as it was written, parameters included. -/
structure MediaType where
  written : String
  deriving DecidableEq, Repr

namespace MediaType

/-- A message in its common presentation format. -/
def cpim : MediaType := ⟨"message/cpim"⟩

def resourceLists : MediaType := ⟨"application/resource-lists+xml"⟩

def plainText : MediaType := ⟨"text/plain"⟩

/-- Type and subtype, without parameters. -/
def essence (m : MediaType) : String :=
  String.ofList (Text.trim (m.written.toList.takeWhile (· ≠ ';')))

def same (a b : MediaType) : Bool :=
  Text.sameName a.essence b.essence

end MediaType

structure Content where
  mediaType : MediaType
  disposition? : Option String := none
  body : String := ""
  deriving DecidableEq, Repr

namespace Content

/-- Disposition of a list that names participants to add. -/
def recipientList : String :=
  "recipient-list"

/-- A resource list that names participants to add. -/
def isRecipientList (c : Content) : Bool :=
  c.mediaType.same .resourceLists && c.disposition? = some recipientList

/-- Equal up to the spelling of the media type. -/
def same (a b : Content) : Bool :=
  a.mediaType.same b.mediaType && a.disposition? = b.disposition? && a.body = b.body

end Content

end Switchboard
