import SJava.File
import SJava.Trace

/-!
# The command line

One file is checked. The exit code is printed on standard output, and a
diagnostic on standard error.
-/

namespace SJava

/-- What the user asks for: the file to check, and whether to be told how it goes. -/
structure Arguments where
  file : Text
  verbose : Bool
  deriving DecidableEq, Repr

namespace Arguments

/-- Arguments read so far. -/
structure Draft where
  file : Option Text := none
  verbose : Bool := false

/-- Takes an argument as the file, of which there is one. -/
def Draft.setFile (p : Draft) (file : Text) : Option Draft :=
  if p.file.isNone && !file.isEmpty then some { p with file } else none

/-- Takes an option, which is given once at most. -/
def Draft.setOption (p : Draft) (arg : Text) : Option Draft :=
  if (arg = ['-', 'v'] || arg = "--verbose".toList) && !p.verbose then
    some { p with verbose := true }
  else none

/-- Takes the arguments from left to right. Behind `--` none is an option, and
`-` never is. -/
def Draft.read (p : Draft) : List Text → Option Draft
  | [] => some p
  | arg :: rest =>
    if arg = ['-', '-'] then rest.foldlM Draft.setFile p
    else if arg.head? = some '-' && arg ≠ ['-'] then p.setOption arg >>= (·.read rest)
    else p.setFile arg >>= (·.read rest)

/-- The arguments of a command line, unless it is misused. -/
def parse (args : List Text) : Option Arguments := do
  let p ← ({} : Draft).read args
  return { file := ← p.file, verbose := p.verbose }

end Arguments

/-- What a run leaves behind. -/
structure Outcome where
  exitCode : UInt32
  stdout : String
  stderr : String
  deriving DecidableEq, Repr

namespace Outcome

/-- The exit code is printed too. -/
def exit (exitCode : UInt32) (stderr : String) : Outcome :=
  { exitCode, stdout := s!"{exitCode}\n", stderr }

/-- The outcome of a misused command line: the same code as for a file that
cannot be read. -/
def usage : Outcome := exit Fault.Family.io.exitCode "Usage: sjava [-v | --verbose] FILE\n"

/-- What a verbose run tells of itself on standard error, one event a line. -/
def told (config : Config) (path : Text) (opened : Opened) : String :=
  let events :=
    if config.acceptsPath path then
      match opened.content? with
      | some content => Event.ofRun config.marker path content
      | none => [.verifying path]
    else []
  String.join ((events.filter (·.level = .debug)).map fun e => s!"{e.level.name} {e.message}\n")

/-- The outcome of checking a file, when opening it gave `opened`. -/
def ofFile (config : Config) (arguments : Arguments) (opened : Opened) : Outcome :=
  let path := arguments.file
  let trace := if arguments.verbose then told config path opened else ""
  match verifyFile config path opened with
  | .ok _ => exit 0 trace
  | .error d => exit d.fault.family.exitCode (trace ++ d.render path opened.content?)

/-- The outcome of a command line, when `openPath` tells what stands at a
path. -/
def ofArguments {m : Type → Type} [Monad m] (config : Config) (args : List Text)
    (openPath : Text → m Opened) : m Outcome :=
  match Arguments.parse args with
  | none => pure usage
  | some arguments => ofFile config arguments <$> openPath arguments.file

end Outcome

end SJava
