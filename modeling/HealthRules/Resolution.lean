import HealthRules.Field
import HealthRules.Json.Parser
import HealthRules.Json.Printer
import HealthRules.Probe
import HealthRules.RuleError
import HealthRules.Text.Blank

/-!
# The value of a field

`Field.resolve?` reads a field of a probe. A path into the body is walked from the root of the JSON
value that the body writes, and fails at the first step that cannot be taken (`Json.walk?`). The
body without a path is its text without white space around it; its kind is that of the JSON value
which this text writes, or a string. `lengthOf?` and `presenceOf` are the two functions of a field.
-/

namespace HealthRules

namespace Json

/-- One step into a value. -/
def step? : Step → Json → Except PathFault Json
  | .key name, object members =>
    match member? name members with
    | some value => .ok value
    | none => .error (.noKey name)
  | .key name, _ => .error (.notObject name)
  | .index n, array items =>
    match items[n]? with
    | some item => .ok item
    | none => .error (.outOfRange n items.length)
  | .index n, _ => .error (.notArray n)

/-- The value that a path leads to. -/
def walk? : BodyPath → Json → Except PathFault Json
  | [], value => .ok value
  | step :: path, value => (step? step value).bind (walk? path)

/-- The text and the kind of a JSON value: a string as it is, anything else in compact form. -/
def toValue : Json → Value
  | .string s => ⟨s, .string⟩
  | .number (.integer n) => ⟨String.ofList (Numeral.integer n).print, .integer⟩
  | .number (.float x) => ⟨String.ofList (Numeral.float x).print, .float⟩
  | .bool b => ⟨if b then "true" else "false", .boolean⟩
  | .null => ⟨"null", .string⟩
  | .array items => ⟨(Json.array items).text, .array⟩
  | .object members => ⟨(Json.object members).text, .string⟩

end Json

namespace Field

/-- The body as a text: what is not UTF-8 replaced, white space around it taken off. -/
def bodyText (body : List UInt8) : List Char :=
  Text.trim (Text.Utf8.decodeLossy body)

/-- The value of the whole body. -/
def rawBody (body : List UInt8) : Value :=
  let text := bodyText body
  let kind := match Json.ofText? text with
    | .ok value => value.toValue.kind
    | .error _ => .string
  ⟨String.ofList text, kind⟩

/-- The value that a path of one or more steps leads to. -/
def bodyAt? (path : BodyPath) (body : List UInt8) : Except PathFault Value :=
  match Json.ofBytes? body with
  | .ok root => (root.walk? path).map Json.toValue
  | .error fault => .error (.notJson fault)

def ofNat (n : Nat) (kind : Kind) : Value :=
  ⟨String.ofList (Number.ofNat n), kind⟩

def ofBool (b : Bool) : Value :=
  ⟨if b then "true" else "false", .boolean⟩

/-- The value of a field. -/
def resolve? (p : Probe) : Field → Except PathFault Value
  | status => .ok (ofNat p.httpStatus.toNat .integer)
  | ip => .ok ⟨p.ip, .ipAddress⟩
  | connected => .ok (ofBool p.connected)
  | responseTime => .ok (ofNat p.duration.wholeMilliseconds .integer)
  | certificateExpiration => .ok (ofNat p.certificateExpiration.wholeMilliseconds .duration)
  | domainExpiration => .ok (ofNat p.domainExpiration.wholeMilliseconds .duration)
  | dnsRcode => .ok ⟨p.dnsRcode, .string⟩
  | body [] => .ok (rawBody p.body)
  | body path => bodyAt? path p.body

/-- The value of the field that a token names, if it names one that can be read. -/
def resolveToken? (token : String) (p : Probe) : Option Value :=
  (ofToken? token.toList).bind fun field => (field.resolve? p).toOption

end Field

/-- The length of a value, for the operand with the given text: the number of items of an array, or
of the characters of a string or an address. -/
def Value.length? (operand : String) (v : Value) : Except LengthFault Nat :=
  match v.kind with
  | .array =>
    match Json.ofText? v.text.toList with
    | .ok (.array items) => .ok items.length
    | _ => .error (.badArray operand)
  | .string | .ipAddress => .ok v.text.length
  | kind => .error (.wrongKind operand kind)

/-- The value of `len(...)` of a field. -/
def Field.lengthOf? (operand : String) (p : Probe) (field : Field) : Except RuleError Value :=
  match field.resolve? p with
  | .error fault => .error (.unresolved operand fault)
  | .ok v =>
    match v.length? operand with
    | .ok n => .ok (Field.ofNat n .integer)
    | .error fault => .error (.noLength fault)

/-- The value of `has(...)` of a field. -/
def Field.presenceOf (p : Probe) (field : Field) : Value :=
  Field.ofBool (field.resolve? p).toBool

end HealthRules
