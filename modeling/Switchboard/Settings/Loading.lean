import Switchboard.Settings.Environment
import Switchboard.Settings.Key
import Switchboard.Settings.Reading
import Switchboard.Toml.Document

/-!
# Loading settings

Settings are loaded from a document or from variables of the environment,
never from both. Either source gives values to keys at the root.
-/

namespace Switchboard.Settings

def ofKeys? (values : List (String × Tree)) : Option Settings :=
  (Tree.ofKeys? values).bind read?

/-- Settings of a document; nothing when it is ill-formed or one of its
values does not fit. -/
def ofToml? (s : String) : Option Settings :=
  (Toml.parse? s).bind ofKeys?

/-- Settings of the variables with these names and texts; of two for the same
setting the later one counts. -/
def ofVariables? (vars : List (String × String)) : Option Settings :=
  ofKeys? (Environment.values vars)

end Switchboard.Settings
