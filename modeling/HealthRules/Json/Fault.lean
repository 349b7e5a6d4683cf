/-!
# Faults in a JSON text

A reader of JSON stops at its first fault. A `Fault` holds the reason and the octets after the
place it is reported at; `Fault.locate` turns that into a line and a column. A fault at an octet
that was only looked at is reported as if the octet had been read, never past the end.
-/

namespace HealthRules.Json

/-- Why a text is not JSON. -/
inductive Reason where
  | endInValue
  | endInList
  | endInObject
  | endInString
  | noValue
  | badWord
  | noListEnd
  | noObjectEnd
  | noColon
  | keyNotString
  | trailingComma
  | trailingCharacters
  | badNumber
  | numberOutOfRange
  | controlCharacter
  | badEscape
  | loneSurrogate
  | endOfSurrogate
  | badCodePoint
  | tooDeep
deriving DecidableEq, Repr

def Reason.message : Reason → String
  | endInValue => "EOF while parsing a value"
  | endInList => "EOF while parsing a list"
  | endInObject => "EOF while parsing an object"
  | endInString => "EOF while parsing a string"
  | noValue => "expected value"
  | badWord => "expected ident"
  | noListEnd => "expected `,` or `]`"
  | noObjectEnd => "expected `,` or `\x7d`"
  | noColon => "expected `:`"
  | keyNotString => "key must be a string"
  | trailingComma => "trailing comma"
  | trailingCharacters => "trailing characters"
  | badNumber => "invalid number"
  | numberOutOfRange => "number out of range"
  | controlCharacter => "control character (\\u0000-\\u001F) found while parsing a string"
  | badEscape => "invalid escape"
  | loneSurrogate => "lone leading surrogate in hex escape"
  | endOfSurrogate => "unexpected end of hex escape"
  | badCodePoint => "invalid unicode code point"
  | tooDeep => "recursion limit exceeded"

/-- A reason and where it arose. -/
structure Fault where
  reason : Reason
  /-- The octets after the reported place. -/
  rest : List UInt8
  /-- How many columns before that place the fault is reported. -/
  back : Nat
deriving DecidableEq, Repr

namespace Fault

/-- A fault right before the octets `rest`. -/
def before (reason : Reason) (rest : List UInt8) : Fault :=
  ⟨reason, rest, 0⟩

/-- A fault at the first of the octets, which was only looked at. -/
def looking (reason : Reason) (bytes : List UInt8) : Fault :=
  ⟨reason, bytes.drop 1, 0⟩

/-- A fault at the end of the text. -/
def ending (reason : Reason) : Fault :=
  ⟨reason, [], 0⟩

end Fault

/-- A reason with its line, from one, and its column, in octets. -/
structure Located where
  reason : Reason
  line : Nat
  column : Nat
deriving DecidableEq, Repr

/-- The line and the column after octets that were read. -/
def position (read : List UInt8) : Nat × Nat :=
  (1 + read.count 10, (read.reverse.takeWhile (· != 10)).length)

/-- The place of a fault in the text it arose in. -/
def Fault.locate (text : List UInt8) (fault : Fault) : Located :=
  let (line, column) := position (text.take (text.length - fault.rest.length))
  ⟨fault.reason, line, column - fault.back⟩

def Located.message (l : Located) : String :=
  s!"{l.reason.message} at line {l.line} column {l.column}"

end HealthRules.Json
