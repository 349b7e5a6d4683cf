import HealthRules.Json.Grammar
import HealthRules.Json.Numeral
import HealthRules.Json.Quoted

/-!
# JSON documents

A document is what a JSON text says member by member: members stay in their order and repeated
keys stay repeated. A number out of range and a string or key with a lone surrogate are there too,
but denote nothing: they are faults only where something wants to know them. Values may be nested
to any depth. This is how stored data is read, where members that nobody knows are passed over.
-/

namespace HealthRules.Json

inductive Document where
  | null
  | bool (b : Bool)
  | number (n : Option Numeral)
  | string (s : Option String)
  | array (items : List Document)
  | object (members : List (Option String × Document))

namespace Document

/-- Reads a number; one out of range denotes nothing, and its remaining digits are passed over. -/
def readNumber (negative : Bool) (bytes : List UInt8) :
    Except Fault (Document × List UInt8) :=
  match Numeral.read negative bytes with
  | .ok (n, rest) => .ok (.number (some n), rest)
  | .error fault =>
    if fault.reason = .numberOutOfRange then
      .ok (.number none, fault.rest.dropWhile Numeral.isDigit)
    else .error fault

/-- Reads what stands between quotes; if it is well formed but is no text, it denotes nothing. -/
def readText (bytes : List UInt8) : Except Fault (Option String × List UInt8) :=
  match Quoted.text bytes with
  | .ok (s, rest) => .ok (some s, rest)
  | .error _ => (Quoted.skim .plain bytes).map (none, ·)

def readString (bytes : List UInt8) : Except Fault (Document × List UInt8) :=
  (readText bytes).map fun (s, rest) => (.string s, rest)

/-- What a text denotes as a document. -/
def denotation : Denotation (Option String) Document where
  null := .null
  bool := .bool
  number := readNumber
  string := readString
  key := readText
  array := .array
  object := .object

/-- The document that a text writes, if it is JSON. -/
def ofText? (text : List Char) : Option Document :=
  let bytes := Text.Utf8.encode text
  (read denotation (bytes.length + 1) bytes).toOption

end Document
end HealthRules.Json
