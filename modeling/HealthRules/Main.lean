import HealthRules.Lint

/-!
# Command line

Checks the configuration file given as the first argument, or named by the environment, or at the
default path. Writes what is wrong with it to standard error and exits with 1, or exits with 0.
-/

namespace HealthRules.Lint

/-- The environment variable that names the configuration file. -/
def pathVariable : String := "VIGIL_CONFIG_PATH"

/-- The words for an error of the system. -/
def systemReason : IO.Error → String
  | .noFileOrDirectory _ _ _ => noSuchFile
  | .permissionDenied _ _ _ => "Permission denied (os error 13)"
  | .inappropriateType _ _ _ => "Is a directory (os error 21)"
  | error => error.toString

/-- Loads the configuration in a file. -/
def loadFile (path : String) : IO (Except LoadError Config) := do
  try
    let bytes ← IO.FS.readBinFile path
    match String.fromUTF8? bytes with
    | some text => return Config.load text
    | none => return .error (.unreadable "stream did not contain valid UTF-8")
  catch error =>
    return .error (.unreadable (systemReason error))

end HealthRules.Lint

def main (args : List String) : IO UInt32 := do
  let named ← IO.getEnv HealthRules.Lint.pathVariable
  let path := args.head?.getD (named.getD HealthRules.Lint.defaultPath)
  match ← HealthRules.Lint.loadFile path with
  | .ok _ => return 0
  | .error error => do
    IO.eprint (HealthRules.Lint.failureText path error)
    return 1
