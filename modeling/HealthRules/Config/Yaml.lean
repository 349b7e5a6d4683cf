import HealthRules.Endpoint
import HealthRules.Yaml.Node

/-!
# Configurations in YAML

A configuration is a mapping with a list of endpoints, an endpoint a mapping with a name, a group, a
URL, a list of conditions and its display options. Where nothing is written, a text is empty, a list
has no items and a mapping no entries. A text is any scalar as it stands; a flag is a plain
`true` or `false`. Unknown keys are passed over, a known key may stand once, and only the name has
to be there. `Config.load` reads a configuration and checks it.
-/

namespace HealthRules

namespace Yaml.Node

def text? : Node → Option String
  | .scalar _ text => some text
  | _ => none

def flag? : Node → Option Bool
  | .scalar true text =>
    if ["true", "True", "TRUE"].contains text then some true
    else if ["false", "False", "FALSE"].contains text then some false
    else none
  | _ => none

def items? : Node → Option (List Node)
  | .sequence items => some items
  | .scalar true "" => some []
  | _ => none

/-- The values of known keys, each of which may stand once. -/
def knownEntries? (known : List String) : List (Node × Node) → Option (List (String × Node))
  | [] => some []
  | (key, value) :: entries => do
    let name ← key.text?
    let more ← knownEntries? known entries
    if known.contains name then
      if (more.lookup name).isSome then none else some ((name, value) :: more)
    else some more

def entries? (known : List String) : Node → Option (List (String × Node))
  | .mapping entries => knownEntries? known entries
  | .scalar true "" => some []
  | _ => none

/-- The value of a key as `read` reads it, or `missing` if the key is not there. -/
def optionalEntry? {α : Type} (entries : List (String × Node)) (key : String) (missing : α)
    (read : Node → Option α) : Option α :=
  match entries.lookup key with
  | some node => read node
  | none => some missing

end Yaml.Node

open Yaml (Node)

/-- The display options of an endpoint: whether outcomes show no values. -/
def Endpoint.redactOfNode? (node : Node) : Option Bool := do
  let key := "dont-resolve-failed-conditions"
  let entries ← node.entries? [key]
  Node.optionalEntry? entries key false Node.flag?

def Endpoint.rulesOfNode? (node : Node) : Option (List Rule) := do
  let items ← node.items?
  items.mapM fun item => item.text?.map Rule.mk

def Endpoint.ofNode? (node : Node) : Option Endpoint := do
  let entries ← node.entries? ["name", "group", "url", "conditions", "ui"]
  let name ← (← entries.lookup "name").text?
  let group ← Node.optionalEntry? entries "group" "" Node.text?
  let url ← Node.optionalEntry? entries "url" "" Node.text?
  let rules ← Node.optionalEntry? entries "conditions" [] Endpoint.rulesOfNode?
  let redact ← Node.optionalEntry? entries "ui" false Endpoint.redactOfNode?
  return ⟨name, group, url, rules, redact⟩

/-- Why a configuration could not be loaded. -/
inductive LoadError where
  /-- The file could not be read, for a reason in the words of the system. -/
  | unreadable (reason : String)
  | notYaml
  | refused (cause : ConfigError)
deriving DecidableEq, Repr

namespace LoadError

def message : LoadError → String
  | unreadable reason => s!"I/O error: {reason}"
  | notYaml => "YAML error: not a configuration"
  | refused cause => cause.message

/-- The error, and what it came from if that has words of its own. -/
def causes (e : LoadError) : List String :=
  match e with
  | unreadable reason => [e.message, reason]
  | notYaml => [e.message]
  | refused (.badRule _ cause) => [e.message, cause.message]
  | refused _ => [e.message]

end LoadError

namespace Config

def endpointsOfNode? (node : Node) : Option (List Endpoint) := do
  let items ← node.items?
  items.mapM Endpoint.ofNode?

def ofNode? (node : Node) : Option Config := do
  let entries ← node.entries? ["endpoints"]
  let endpoints ← Node.optionalEntry? entries "endpoints" [] endpointsOfNode?
  return ⟨endpoints⟩

/-- The configuration that a YAML text writes; a text without a document is an empty one. -/
def ofYaml? (text : String) : Option Config := do
  match ← Node.ofText? text.toList with
  | some node => ofNode? node
  | none => return ⟨[]⟩

/-- Reads a configuration from YAML and checks it. -/
def load (text : String) : Except LoadError Config :=
  match ofYaml? text with
  | none => .error .notYaml
  | some config =>
    match config.check with
    | .ok () => .ok config
    | .error cause => .error (.refused cause)

end Config
end HealthRules
