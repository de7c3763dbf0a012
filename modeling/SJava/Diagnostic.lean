import SJava.Check.Outline

/-!
# Diagnostics

A fault with the place it is reported at, and what the user is shown of it.
-/

namespace SJava

/-- A line of a source. Line 0 is no line in particular, and line numbers are
32 bits wide. -/
structure Position where
  line : UInt32
  source : Text
  deriving DecidableEq, Repr

/-- The position of a fault that lies in no source. -/
def Position.null : Position := ⟨0, "<null>".toList⟩

/-- What is reported: a fault, and where it lies. -/
structure Diagnostic where
  fault : Fault
  position : Position
  deriving DecidableEq, Repr

/-- A failure within a source. -/
def Failure.inSource (f : Failure) (source : Text) : Diagnostic :=
  ⟨f.fault, UInt32.ofNat f.line, source⟩

namespace Diagnostic

/-- The family, the message and the line. -/
def message (d : Diagnostic) : String :=
  let text := d.fault.family.name ++ ": " ++ d.fault.message
  if d.position.line = 0 then text else s!"{text} (line {d.position.line})"

/-- The fault by name, with its tip. -/
def headline (d : Diagnostic) : String :=
  match d.fault.tip with
  | none => s!"Error: {d.fault.name}\n"
  | some tip => s!"Error: {d.fault.name} ({tip})\n"

/-- A line of the source between two rules, behind its number. -/
def excerpt (number : UInt32) (raw : Text) : String :=
  let digits := toString number
  let rule := String.ofList (List.replicate (digits.length + 1) ' ') ++ "|\n"
  rule ++ s!"{digits} | {String.ofList (Text.trim raw)}\n" ++ rule

/-- What the user is shown: the fault, the file, the line if the file has it, and
the message. -/
def render (d : Diagnostic) (path : Text) (content : Option Content) : String :=
  let shownLine :=
    match content.bind (·.lineAt? d.position.line.toNat) with
    | some raw => excerpt d.position.line raw
    | none => ""
  d.headline ++ s!"-> {String.ofList path}\n" ++ shownLine ++ s!"{d.message}\n"

end Diagnostic

end SJava
