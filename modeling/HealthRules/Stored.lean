import HealthRules.Endpoint
import HealthRules.Json.Document
import HealthRules.Json.Printer

/-!
# Stored forms

Reports, outcomes and configurations are stored as JSON. `toJson` gives the form in which each is
stored; `ofDocument?` reads it back from a document. A record is stored as an object; it is also
read from a list of its fields in order. Unknown members are passed over, a known one may stand
once, and only members with a default may be missing. A name of a fixed set is a string, or an
object with that name alone and null in it.
-/

namespace HealthRules

open Json (Document)

/-! ## Reading -/

namespace Json.Document

def text? : Document → Option String
  | .string s => s
  | _ => none

def bool? : Document → Option Bool
  | .bool b => some b
  | _ => none

/-- A whole number from zero to `max`. -/
def natural? (max : Nat) : Document → Option Nat
  | .number (some (.integer (.ofNat n))) => if n ≤ max then some n else none
  | _ => none

/-- The items of a list, each as `read` reads it. -/
def list? {α : Type} (read : Document → Option α) : Document → Option (List α)
  | .array items => items.mapM read
  | _ => none

/-- One of a fixed set of names. -/
def name? {α : Type} (ofName? : String → Option α) : Document → Option α
  | .string s => s.bind ofName?
  | .object [(some name, .null)] => ofName? name
  | _ => none

/-- Whether no key occurs twice. -/
def distinctKeys : List (String × Document) → Bool
  | [] => true
  | (key, _) :: members => (members.lookup key).isNone && distinctKeys members

/-- Members by key, if each key is a text. -/
def keyed? (members : List (Option String × Document)) : Option (List (String × Document)) :=
  members.mapM fun (key, document) => key.map (·, document)

/-- The known members of an object, each of which may stand once, or the items of a list as the
known members in order. -/
def record? (known : List String) : Document → Option (List (String × Document))
  | .object members => do
    let members ← keyed? members
    let members := members.filter fun (key, _) => known.contains key
    if distinctKeys members then some members else none
  | .array items => if items.length ≤ known.length then some (known.zip items) else none
  | _ => none

/-- Whether an object has no members but known ones. -/
def knowsAll (known : List String) : Document → Bool
  | .object members => members.all fun (key, _) => key.any known.contains
  | _ => true

/-- A member that has to be there. -/
def member? {α : Type} (members : List (String × Document)) (key : String)
    (read : Document → Option α) : Option α :=
  (members.lookup key).bind read

/-- A member that may be missing. -/
def memberOr? {α : Type} (members : List (String × Document)) (key : String) (missing : α)
    (read : Document → Option α) : Option α :=
  match members.lookup key with
  | some document => read document
  | none => some missing

end Json.Document

open Json.Document (text? bool? natural? list? name? record? knowsAll member? memberOr?)

/-! ## Severities, kinds and rules -/

def Severity.toJson (s : Severity) : Json := .string s.name

def Severity.ofDocument? : Document → Option Severity := name? Severity.ofName?

def Kind.toJson (k : Kind) : Json := .string k.name

def Kind.ofDocument? : Document → Option Kind := name? Kind.ofName?

def Rule.toJson (r : Rule) : Json := .string r.text

def Rule.ofDocument? (d : Document) : Option Rule := d.text?.map Rule.mk

/-! ## Durations and timestamps -/

def Duration.toJson (d : Duration) : Json :=
  .object [("secs", .number (.integer d.seconds.toNat)),
    ("nanos", .number (.integer d.nanoseconds.val))]

/-- Seconds and nanoseconds, and nothing else; nanoseconds beyond a second are carried. -/
def Duration.ofDocument? (d : Document) : Option Duration := do
  let known := ["secs", "nanos"]
  guard (knowsAll known d)
  let members ← record? known d
  let seconds ← member? members "secs" (natural? (Nat.pow 2 64 - 1))
  let nanos ← member? members "nanos" (natural? (Nat.pow 2 32 - 1))
  ofParts? seconds nanos

def Timestamp.toJson (t : Timestamp) : Json := .string (String.ofList t.print)

def Timestamp.ofDocument? (d : Document) : Option Timestamp :=
  d.text?.bind fun s => ofText? s.toList

/-! ## Outcomes and reports -/

def Outcome.toJson (o : Outcome) : Json :=
  .object [("condition", .string o.condition), ("success", .bool o.success),
    ("severity_status", o.severity.toJson)]

def Outcome.ofDocument? (d : Document) : Option Outcome := do
  let members ← record? ["condition", "success", "severity_status"] d
  let condition ← member? members "condition" text?
  let success ← member? members "success" bool?
  let severity ← member? members "severity_status" Severity.ofDocument?
  return ⟨condition, success, severity⟩

def Report.toJson (r : Report) : Json :=
  .object [("success", .bool r.success),
    ("http_status", .number (.integer r.probe.httpStatus.toNat)),
    ("body", .array (r.probe.body.map fun b => .number (.integer b.toNat))),
    ("ip", .string r.probe.ip),
    ("hostname", .string r.probe.hostname),
    ("connected", .bool r.probe.connected),
    ("duration", r.probe.duration.toJson),
    ("certificate_expiration", r.probe.certificateExpiration.toJson),
    ("domain_expiration", r.probe.domainExpiration.toJson),
    ("dns_rcode", .string r.probe.dnsRcode),
    ("severity_status", r.severity.toJson),
    ("condition_results", .array (r.outcomes.map Outcome.toJson)),
    ("errors", .array (r.errors.map .string)),
    ("timestamp", r.timestamp.toJson)]

/-- The members of a stored report, in order. -/
def Report.members : List String :=
  ["success", "http_status", "body", "ip", "hostname", "connected", "duration",
    "certificate_expiration", "domain_expiration", "dns_rcode", "severity_status",
    "condition_results", "errors", "timestamp"]

def Report.byteOfDocument? (d : Document) : Option UInt8 :=
  (natural? 255 d).map UInt8.ofNat

def Report.ofDocument? (d : Document) : Option Report := do
  let members ← record? Report.members d
  let success ← member? members "success" bool?
  let status ← member? members "http_status" (natural? 65535)
  let body ← memberOr? members "body" [] (list? byteOfDocument?)
  let ip ← member? members "ip" text?
  let hostname ← member? members "hostname" text?
  let connected ← member? members "connected" bool?
  let duration ← member? members "duration" Duration.ofDocument?
  let certificate ← member? members "certificate_expiration" Duration.ofDocument?
  let domain ← member? members "domain_expiration" Duration.ofDocument?
  let rcode ← member? members "dns_rcode" text?
  let severity ← member? members "severity_status" Severity.ofDocument?
  let outcomes ← member? members "condition_results" (list? Outcome.ofDocument?)
  let errors ← member? members "errors" (list? text?)
  let timestamp ← member? members "timestamp" Timestamp.ofDocument?
  let probe : Probe :=
    ⟨UInt16.ofNat status, body, ip, hostname, connected, duration, certificate, domain, rcode⟩
  return ⟨probe, success, severity, outcomes, errors, timestamp⟩

/-! ## Configurations -/

/-- The key of the display option that keeps values out of outcomes. -/
def Endpoint.redactKey : String := "dont-resolve-failed-conditions"

def Endpoint.toJson (e : Endpoint) : Json :=
  .object [("name", .string e.name), ("group", .string e.group), ("url", .string e.url),
    ("conditions", .array (e.rules.map Rule.toJson)),
    ("ui", .object [(redactKey, .bool e.redact)])]

def Endpoint.redactOfDocument? (d : Document) : Option Bool := do
  let members ← record? [redactKey] d
  memberOr? members redactKey false bool?

def Endpoint.ofDocument? (d : Document) : Option Endpoint := do
  let members ← record? ["name", "group", "url", "conditions", "ui"] d
  let name ← member? members "name" text?
  let group ← memberOr? members "group" "" text?
  let url ← memberOr? members "url" "" text?
  let rules ← memberOr? members "conditions" [] (list? Rule.ofDocument?)
  let redact ← memberOr? members "ui" false redactOfDocument?
  return ⟨name, group, url, rules, redact⟩

def Config.toJson (c : Config) : Json :=
  .object [("endpoints", .array (c.endpoints.map Endpoint.toJson))]

def Config.ofDocument? (d : Document) : Option Config := do
  let members ← record? ["endpoints"] d
  let endpoints ← memberOr? members "endpoints" [] (list? Endpoint.ofDocument?)
  return ⟨endpoints⟩

/-! ## Texts -/

/-- Reads a stored text with a reader of documents. -/
def ofStored? {α : Type} (read : Document → Option α) (text : String) : Option α :=
  (Document.ofText? text.toList).bind read

end HealthRules
