import ApexLayout.Command

/-!
The program: reads the files that a run needs, runs, and prints how it ended.
-/

namespace ApexLayout

namespace Program

/-- The text at a path. -/
def readPath (path : Text) : IO (Except ReadFailure Text) := do
  try
    let bytes ← IO.FS.readBinFile (String.ofList path)
    match String.fromUTF8? bytes with
    | some text => return .ok text.toList
    | none => return .error .notText
  catch
    | .noFileOrDirectory .. => return .error .missing
    -- the system's number for reading a directory
    | .inappropriateType _ 21 _ => return .error .directory
    | .inappropriateType .. => return .error .notDirectory
    | error => return .error (.other (toString error).toList)

/-- Where the user's settings are: in the directory that the system names for settings, which has
to be an absolute path, or else below the home directory. -/
def userPath : IO (Option Text) := do
  let settingsHome ← IO.getEnv "XDG_CONFIG_HOME"
  let home ← IO.getEnv "HOME"
  let directory := settingsHome.filter (·.startsWith "/") <|> home.map (· ++ "/.config")
  return directory.map fun path => (path ++ "/apexfmt/config.json").toList

/-- How the arguments are used. -/
def usage : String :=
  "Usage: [--config PATH] [--chain-threshold N] [--indent tabs|spaces] [--indent-width N] " ++
    "[--tree] [-v] INPUT"

/-- Prints how a run ended. -/
def report (outcome : Outcome) : IO Unit :=
  match outcome with
  | .printed text => IO.print (String.ofList text)
  | .misused => IO.eprintln usage
  | .failed failure => do
    IO.eprintln (String.ofList ("Error: ".toList ++ failure.text))
    match failure.reason with
    | none => return
    | some reason => IO.eprintln (String.ofList ("\nCaused by:\n    ".toList ++ reason))

/-- Runs with the given arguments and returns the exit status. -/
def start (arguments : List String) : IO UInt32 := do
  let texts := arguments.map String.toList
  let userPath ← userPath
  let paths := ((Invocation.ofArguments? texts).map (·.paths userPath)).getD []
  let contents ← paths.mapM fun path => return (path, ← readPath path)
  let outcome := run texts userPath fun path => (contents.lookup path).getD (.error .missing)
  report outcome
  return outcome.status.toUInt32

end Program

end ApexLayout

/-- Runs the program. -/
def main (arguments : List String) : IO UInt32 := ApexLayout.Program.start arguments
