import SJava.CommandLine

/-!
# The program

Checks one file and exits with the code of the answer.
-/

namespace SJava

/-- What the system finds at a path. -/
def openFile (path : Text) : IO Opened := do
  if '\x00' ∈ path then return .error .nulInName
  try
    return .ok (.file (← IO.FS.readBinFile (String.ofList path)).toList)
  catch e =>
    match e with
    | .noFileOrDirectory .. => return .error .missing
    | .inappropriateType none .. => return .ok .directory
    | .inappropriateType .. => return .error .notDirectory
    | .invalidArgument .. => return .error .nameTooLong
    | e => return .error (.other (toString e))

/-- Reads the settings from the environment. -/
def readConfig : IO Config := do
  let extension ← IO.getEnv Config.extensionVariable
  let marker ← IO.getEnv Config.markerVariable
  return Config.ofEnvironment (extension.map String.toList) (marker.map String.toList)

end SJava

/-- Checks the file that the arguments name. -/
def main (args : List String) : IO UInt32 := do
  let config ← SJava.readConfig
  let outcome ← SJava.Outcome.ofArguments config (args.map String.toList) SJava.openFile
  IO.eprint outcome.stderr
  IO.print outcome.stdout
  return outcome.exitCode
