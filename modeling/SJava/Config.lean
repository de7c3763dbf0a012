import SJava.Text.Blank

/-!
# Settings

Which files are accepted, and which lines are comments.
-/

namespace SJava

/-- What a file of the language looks like: its extension, and its comments. -/
structure Config where
  /-- What every accepted path ends with. -/
  extension : Text := ['.', 's', 'j', 'a', 'v', 'a']
  /-- What every comment line starts with. -/
  marker : Text := ['/', '/']
  deriving DecidableEq, Repr

namespace Config

/-- The environment variable that replaces the extension. -/
def extensionVariable : String := "SJAVAC_EXTENSION"

/-- The environment variable that replaces the comment marker. -/
def markerVariable : String := "SJAVAC_COMMENT_MARKER"

/-- The settings for the values of the two variables. An empty marker, which
would make every line a comment, is passed over. -/
def ofEnvironment (extension marker : Option Text) : Config where
  extension := extension.getD ({} : Config).extension
  marker := (marker.filter (!·.isEmpty)).getD ({} : Config).marker

/-- Whether the path has the extension. A path that is the extension and nothing more has it. -/
def acceptsPath (config : Config) (path : Text) : Bool := config.extension.isSuffixOf path

end Config

end SJava
