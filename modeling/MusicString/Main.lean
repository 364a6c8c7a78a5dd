import MusicString.CommandLine

/-!
# The program

Reads the arguments and the files they name, and writes what the run leaves.
-/

namespace MusicString

/-- The text of a file that can be read. -/
def readText? (path : String) : IO (Option String) := do
  try
    return some (← IO.FS.readFile path)
  catch _ =>
    return none

/-- The text of the configuration in the home directory. -/
def readHomeConfig? : IO (Option String) := do
  match ← IO.getEnv "HOME" with
  | some home => readText? (home ++ "/.notestream/parser.yaml")
  | none => return none

/-- Writes an outcome, and gives its exit code. -/
def report (o : CommandLine.Outcome) : IO UInt32 := do
  IO.print o.stdout
  IO.eprint o.stderr
  return o.code.toUInt32

/-- The line that tells how the program is called. -/
def usage : String :=
  "Usage: notestream [OPTIONS] <PATTERN>\n"

/-- Why a configuration was not loaded. -/
def ConfigError.message (path : String) : ConfigError → String
  | unreadable => "cannot read " ++ path
  | invalid => "invalid configuration in " ++ path

end MusicString

open MusicString in
/-- Runs the program. -/
def main (args : List String) : IO UInt32 := do
  match CommandLine.parse args with
  | .refused => report { code := 2, stderr := usage }
  | .help => report { code := 0, stdout := usage }
  | .version => report CommandLine.versionOutcome
  | .run options =>
    let path := options.config.getD ""
    let file ← if options.config.isSome then readText? path else pure none
    match CommandLine.execute options file (← readHomeConfig?) with
    | .ok outcome => report outcome
    | .error e => report { code := 1, stderr := e.message path ++ "\n" }
