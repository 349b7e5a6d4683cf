import HealthRules.Report
import HealthRules.Text.LowerCase

/-!
# Endpoints

An endpoint has a name, perhaps a group, and the rules that decide whether it is healthy. Its key
is made of the group and the name in lower case, with a dash for each character that separates
words; an underscore stands between the two and nowhere else.
-/

namespace HealthRules

structure Endpoint where
  name : String
  group : String
  url : String
  rules : List Rule
  /-- Whether outcomes show no values. -/
  redact : Bool
deriving DecidableEq, Repr

/-- Why an endpoint, or the configuration that holds it, is refused. -/
inductive ConfigError where
  | noName
  | noRules (endpoint : String)
  | badRule (endpoint : String) (cause : RuleError)
  | duplicate (endpoint : String)
deriving DecidableEq, Repr

def ConfigError.message : ConfigError → String
  | noName => "Invalid endpoint: name must not be empty"
  | noRules endpoint => s!"Invalid endpoint: {endpoint} has no conditions"
  | badRule endpoint cause => s!"Invalid endpoint '{endpoint}': {cause.message}"
  | duplicate endpoint => s!"Configuration error: duplicate endpoint: {endpoint}"

namespace Endpoint

/-- The name by which messages call the endpoint. -/
def displayName (e : Endpoint) : String :=
  if e.group = "" then e.name else e.group ++ "/" ++ e.name

/-- The characters that separate words in names and groups. -/
def separators : List Char := ['/', '_', ',', '.', '#', '+', '&', ' ']

/-- A group or a name as it stands in a key. -/
def keyPart (s : String) : List Char :=
  (Text.lowerCase s.toList).map fun c => if separators.contains c then '-' else c

def key (e : Endpoint) : String :=
  String.ofList (keyPart e.group ++ '_' :: keyPart e.name)

/-- The first fault of an endpoint: a blank name, no rules, or its first malformed rule. -/
def check (e : Endpoint) : Except ConfigError Unit :=
  if Text.trim e.name.toList = [] then .error .noName
  else if e.rules = [] then .error (.noRules e.displayName)
  else e.rules.forM fun rule => rule.check.mapError (.badRule e.displayName)

/-- Evaluates one more rule on the report that those before it left. The answer is whether all of
them passed so far. -/
def evaluateNext (redact : Bool) (state : Bool × Report) (rule : Rule) : Bool × Report :=
  let (passed, after) := state.2.evaluateRule rule redact
  (state.1 && passed, after)

/-- Evaluates every rule, in order. The verdict holds if every rule passed now; the severity is the
worst of all outcomes in the report. -/
def evaluate (e : Endpoint) (r : Report) : Report :=
  let (success, after) := e.rules.foldl (evaluateNext e.redact) (true, r)
  { after with
    success := success
    severity := after.worst }

def needsBody (e : Endpoint) : Bool := e.rules.any Rule.mentionsBody
def needsIp (e : Endpoint) : Bool := e.rules.any Rule.mentionsIp
def needsDomainExpiration (e : Endpoint) : Bool := e.rules.any Rule.mentionsDomainExpiration

def needsCertificateExpiration (e : Endpoint) : Bool :=
  e.rules.any Rule.mentionsCertificateExpiration

end Endpoint

/-- The endpoints that are to be watched. -/
structure Config where
  endpoints : List Endpoint
deriving DecidableEq, Repr

namespace Config

/-- Checks endpoints in order, given the keys of those before: the first that is faulty itself, or
whose key occurred before, is the error. -/
def checkFrom (keys : List String) : List Endpoint → Except ConfigError Unit
  | [] => .ok ()
  | e :: es =>
    match e.check with
    | .error error => .error error
    | .ok () =>
      if keys.contains e.key then .error (.duplicate e.displayName)
      else checkFrom (e.key :: keys) es

/-- The first fault of a configuration. -/
def check (c : Config) : Except ConfigError Unit :=
  checkFrom [] c.endpoints

end Config
end HealthRules
