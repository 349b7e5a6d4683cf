import HealthRules.Config.Yaml

/-!
# Checking a configuration file

What the checking program writes when a configuration cannot be loaded: the file, and the causes
of the failure, numbered if there are several. Further lines of a cause are indented.
-/

namespace HealthRules.Lint

/-- The file that is read when no other is named. -/
def defaultPath : String := "config/config.yaml"

/-- What reading a file that is not there is answered with. -/
def noSuchFile : String := "No such file or directory (os error 2)"

/-- A cause on lines of its own, the first after `head`, the others after `indent`. -/
def indented (head indent : List Char) (cause : String) : List Char :=
  head ++ cause.toList.flatMap (fun c => if c = '\n' then '\n' :: indent else [c]) ++ ['\n']

/-- Causes numbered from `n` on. -/
def numbered (n : Nat) : List String → List Char
  | [] => []
  | cause :: causes =>
    let number := (toString n).toList
    let head := List.replicate (5 - number.length) ' ' ++ number ++ [':', ' ']
    indented head (List.replicate 7 ' ') cause ++ numbered (n + 1) causes

def listed : List String → List Char
  | [cause] => indented (List.replicate 4 ' ') (List.replicate 4 ' ') cause
  | causes => numbered 0 causes

/-- What is written about a configuration that could not be loaded from a path. -/
def failureText (path : String) (error : LoadError) : String :=
  s!"Error: Failed to load configuration from {path}\n\nCaused by:\n"
    ++ String.ofList (listed error.causes)

end HealthRules.Lint
