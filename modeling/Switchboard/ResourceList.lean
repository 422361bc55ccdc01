import Switchboard.Address.Parser
import Switchboard.Address.Printer
import Switchboard.Markup.Attribute
import Switchboard.Markup.Entity

/-!
# Resource lists

A resource list names addresses in a markup text: each `uri` attribute of an
`entry` element is one, whatever namespaces the names are in. A value that is
no address is passed over, but a fault in the markup makes the whole list
unreadable.
-/

namespace Switchboard.ResourceList

open Markup

/-- Attributes of the entry that a tag starts, if it starts one. -/
def entryAttributes? : Tag → Option (List Char)
  | .start name rest | .empty name rest =>
    if localName name = "entry".toList then some rest else none
  | .close _ => none

/-- Values of the `uri` attributes among these, references resolved. -/
def uris? (attributes : List Attribute) : Option (List (List Char)) :=
  (attributes.filter fun a => localName a.name = "uri".toList).mapM fun a => unescape a.value

/-- Values of every entry's `uri` attributes, in order. -/
def values? (tags : List Tag) : Option (List (List Char)) :=
  ((tags.filterMap entryAttributes?).mapM fun rest => (attributes? rest).bind uris?).map
    List.flatten

/-- Addresses of a list; nothing when its markup is at fault. -/
def parse? (s : String) : Option (List Address) :=
  ((tags? s.toList).bind values?).map fun values =>
    values.filterMap fun value => (Address.read value).toOption

def writeEntry (a : Address) : List Char :=
  "<entry uri=\"".toList ++ escape a.writeUri ++ "\"/>".toList

def opening : List Char :=
  "<?xml version=\"1.0\" encoding=\"UTF-8\"?>".toList
    ++ "<resource-lists xmlns=\"urn:ietf:params:xml:ns:resource-lists\"><list>".toList

def closing : List Char :=
  "</list></resource-lists>".toList

def write (addresses : List Address) : List Char :=
  opening ++ addresses.flatMap writeEntry ++ closing

/-- The list with one entry for each address, by its URI alone. -/
def format (addresses : List Address) : String :=
  String.ofList (write addresses)

end Switchboard.ResourceList
