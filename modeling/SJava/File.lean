import SJava.Check.Program
import SJava.Config
import SJava.Diagnostic

/-!
# Checking files

What opening a path can give, and the answer to each. A path that cannot be
opened is reported at no line of any source; a directory opens, but its first
line cannot be read.
-/

namespace SJava

/-- What stands at a path that can be opened. -/
inductive Entry where
  | file (bytes : List UInt8)
  | directory
  deriving DecidableEq, Repr

/-- Why a path cannot be opened. -/
inductive OpenFault where
  | missing
  | notDirectory
  | nameTooLong
  | nulInName
  /-- Any other reason, in the system's words. -/
  | other (reason : String)
  deriving DecidableEq, Repr

/-- The fault in the words of the system. -/
def OpenFault.message : OpenFault → String
  | missing => "No such file or directory (os error 2)"
  | notDirectory => "Not a directory (os error 20)"
  | nameTooLong => "File name too long (os error 36)"
  | nulInName => "file name contained an unexpected NUL byte"
  | other reason => reason

/-- What opening a path gives. -/
abbrev Opened := Except OpenFault Entry

/-- What can be read of it. -/
def Opened.content? : Opened → Option Content
  | .ok (.file bytes) => some (.bytes bytes)
  | _ => none

/-- Checks what stands at a path, whatever its extension. -/
def Opened.verify (marker path : Text) : Opened → Except Diagnostic State
  | .ok (.file bytes) => ((Content.bytes bytes).verify marker).mapError (·.inSource path)
  | .ok .directory => .error ⟨.io "Is a directory (os error 21)".toList, 0, path⟩
  | .error fault => .error ⟨.io fault.message.toList, .null⟩

/-- Checks the file at a path, which has to have the extension. -/
def verifyFile (config : Config) (path : Text) (opened : Opened) : Except Diagnostic State :=
  if config.acceptsPath path then opened.verify config.marker path
  else .error ⟨.io "Invalid file name".toList, .null⟩

/-- The name of a source that is no file. -/
def sourceName : Text := "<source>".toList

/-- Checks a text. -/
def verifyText (config : Config) (text : Text) : Except Diagnostic State :=
  ((Content.text text).verify config.marker).mapError (·.inSource sourceName)

end SJava
