import Switchboard.Ranked
import Switchboard.Srtp.Suite

/-!
# Configured suite lists

Suites are listed with commas between them. Read leniently, an entry that is
no suite is passed over and an empty result falls back to the defaults; read
strictly, the first such entry is an error. Either way a suite listed twice
keeps its first place.
-/

namespace Switchboard.Srtp.Suite

/-- The defaults stand in for an empty list. -/
def orDefaults (suites : List Suite) : List Suite :=
  if suites = [] then defaults else suites

theorem orDefaults_ne_nil (suites : List Suite) : orDefaults suites ≠ [] := by
  unfold orDefaults
  split
  · exact List.cons_ne_nil _ _
  · assumption

def readLenient (s : List Char) : List Suite :=
  orDefaults (Ranked.ofList ((Text.entries ',' s).filterMap fun entry => (read entry).toOption))

def readStrict (s : List Char) : Except Error (List Suite) :=
  ((Text.entries ',' s).mapM read).map Ranked.ofList

def parseLenient (s : String) : List Suite :=
  readLenient s.toList

def parseStrict (s : String) : Except Error (List Suite) :=
  readStrict s.toList

def writeList (suites : List Suite) : List Char :=
  [',', ' '].intercalate (suites.map write)

def listText (suites : List Suite) : String :=
  String.ofList (writeList suites)

end Switchboard.Srtp.Suite
