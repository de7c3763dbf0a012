import SJava.File

/-!
# Directory trees

A tree of files to look paths up in. A path is walked from left to right: each
component needs a directory to stand in, so what is wrong furthest to the left
is what is reported.
-/

namespace SJava

/-- Names from the root of the tree downwards; leading `..` lead out of it. -/
abbrev Location := List Text

/-- A tree of files, given by the locations of the files and their bytes. -/
structure Directory where
  files : List (Location × List UInt8) := []
  /-- Directories that exist whether or not a file lies in them. -/
  directories : List Location := []

namespace Directory

/-- The component that leads one step up. -/
def parentName : Text := ['.', '.']

/-- What stands at a location. The root and all that lies above it are
directories, and so is whatever a file or directory lies in. -/
def entry? (d : Directory) (l : Location) : Option Entry :=
  match d.files.find? (·.1 = l) with
  | some (_, bytes) => some (.file bytes)
  | none =>
    if l.all (· = parentName) || d.directories.any l.isPrefixOf ||
        d.files.any (l.isPrefixOf ·.1) then
      some .directory
    else none

/-- One step down, or for `..` up. -/
def child (l : Location) (component : Text) : Location :=
  if component = [] ∨ component = ['.'] then l
  else if component = parentName then
    if l.all (· = parentName) then parentName :: l else l.dropLast
  else l ++ [component]

/-- The longest name of a file, in bytes. -/
def maxName : Nat := 255

/-- The longest path, in bytes. -/
def maxPath : Nat := 4095

/-- The length of a text in UTF-8. -/
def byteLength (s : Text) : Nat := s.foldl (fun n c => n + c.utf8Size) 0

/-- Walks the rest of a path from a location. -/
def walk (d : Directory) (l : Location) : List Text → Opened
  | [] => match d.entry? l with
    | some entry => .ok entry
    | none => .error .missing
  | component :: rest =>
    match d.entry? l with
    | none => .error .missing
    | some (.file _) => .error .notDirectory
    | some .directory =>
      if byteLength component > maxName then .error .nameTooLong
      else d.walk (child l component) rest

/-- Opens a path relative to the root of the tree. Nothing is known of what lies
outside, where an absolute path leads. -/
def openPath (d : Directory) (path : Text) : Opened :=
  if '\x00' ∈ path then .error .nulInName
  else if byteLength path > maxPath then .error .nameTooLong
  else if path.isEmpty then .error .missing
  else d.walk (if path.head? = some '/' then [parentName] else []) (path.splitOn '/')

/-- The location a plain relative path names. -/
def location (path : Text) : Location := (path.splitOn '/').foldl child []

end Directory

end SJava
