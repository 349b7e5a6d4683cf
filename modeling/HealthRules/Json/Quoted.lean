import HealthRules.Json.Fault
import HealthRules.Text.Utf8

/-!
# Quoted JSON strings

A string stands between quotes. Inside, a backslash begins an escape, an octet below 0x20 is a
fault, and the octets have to be UTF-8 once the escapes are read; a character beyond U+FFFF may be
escaped as two surrogates. `text` reads a string, `skim` only finds its end, for a string that
nothing looks at. `quote` writes one: it escapes the quote, the backslash and what is below U+0020.
-/

namespace HealthRules.Json.Quoted

open Text (Utf8.decode? Utf8.encode Utf8.validLength)

/-- The value of a hexadecimal digit. -/
def hexDigit? (b : UInt8) : Option Nat :=
  let c := Char.ofUInt8 b
  if c.isDigit then some (b.toNat - 48)
  else if 'a' ≤ c ∧ c ≤ 'f' then some (b.toNat - 87)
  else if 'A' ≤ c ∧ c ≤ 'F' then some (b.toNat - 55)
  else none

/-- The number that hexadecimal digits write. -/
def hex? (bytes : List UInt8) : Option Nat :=
  bytes.foldlM (fun n b => (hexDigit? b).map (n * 16 + ·)) 0

/-- The octet that a backslash and one letter stand for. -/
def letterEscape? (c : Char) : Option UInt8 :=
  match c with
  | '"' => some 0x22
  | '\\' => some 0x5C
  | '/' => some 0x2F
  | 'b' => some 0x08
  | 'f' => some 0x0C
  | 'n' => some 0x0A
  | 'r' => some 0x0D
  | 't' => some 0x09
  | _ => none

def isHighSurrogate (n : Nat) : Bool := 0xD800 ≤ n && n ≤ 0xDBFF

def isLowSurrogate (n : Nat) : Bool := 0xDC00 ≤ n && n ≤ 0xDFFF

/-- The character that two surrogates stand for. -/
def pairUp (high low : Nat) : Char :=
  Char.ofNat ((high - 0xD800) * 0x400 + (low - 0xDC00) + 0x10000)

/-- Where a reader of a string stands: between characters, after a backslash, among the digits of
an escape (after a high surrogate, perhaps), after a high surrogate, after the backslash behind
one. -/
inductive Place where
  | plain
  | escape
  | hex (high : Option Nat) (digits : List UInt8)
  | high (n : Nat)
  | highEscape (n : Nat)

/-- Puts octets in front of those that were read after them. -/
def prepend (bytes : List UInt8) :
    Except Fault (List UInt8 × List UInt8) → Except Fault (List UInt8 × List UInt8)
  | .ok (more, rest) => .ok (bytes ++ more, rest)
  | .error fault => .error fault

/-- Reads a string up to its closing quote: its octets, escapes replaced, and what follows. -/
def octets : Place → List UInt8 → Except Fault (List UInt8 × List UInt8)
  | _, [] => .error (.ending .endInString)
  | .plain, b :: bs =>
    if Char.ofUInt8 b = '"' then .ok ([], bs)
    else if Char.ofUInt8 b = '\\' then octets .escape bs
    else if b < 0x20 then .error (.before .controlCharacter bs)
    else prepend [b] (octets .plain bs)
  | .escape, b :: bs =>
    if Char.ofUInt8 b = 'u' then octets (.hex none []) bs
    else match letterEscape? (Char.ofUInt8 b) with
      | some octet => prepend [octet] (octets .plain bs)
      | none => .error (.before .badEscape bs)
  | .hex high digits, b :: bs =>
    if digits.length < 3 then octets (.hex high (digits ++ [b])) bs
    else match hex? (digits ++ [b]), high with
      | none, _ => .error (.before .badEscape bs)
      | some n, none =>
        if isLowSurrogate n then .error (.before .loneSurrogate bs)
        else if isHighSurrogate n then octets (.high n) bs
        else prepend (Utf8.encode [Char.ofNat n]) (octets .plain bs)
      | some n, some h =>
        if isLowSurrogate n then prepend (Utf8.encode [pairUp h n]) (octets .plain bs)
        else .error (.before .loneSurrogate bs)
  | .high n, b :: bs =>
    if Char.ofUInt8 b = '\\' then octets (.highEscape n) bs
    else .error (.before .endOfSurrogate bs)
  | .highEscape n, b :: bs =>
    if Char.ofUInt8 b = 'u' then octets (.hex (some n) []) bs
    else .error (.before .endOfSurrogate bs)

/-- Reads a string after its opening quote. Octets that are not UTF-8 are reported as many columns
before the end as there are octets from the first wrong one on. -/
def text (bytes : List UInt8) : Except Fault (String × List UInt8) :=
  match octets .plain bytes with
  | .error fault => .error fault
  | .ok (read, rest) =>
    match Utf8.decode? read with
    | some cs => .ok (String.ofList cs, rest)
    | none => .error ⟨.badCodePoint, rest, read.length - Utf8.validLength read⟩

/-- Where a reader stands that only looks for the end of a string: between characters, after a
backslash, or among the digits of an escape with so many read. -/
inductive SkimPlace where
  | plain
  | escape
  | hex (digits : List UInt8)

/-- Finds the end of a string, checking its escapes for their form alone. -/
def skim : SkimPlace → List UInt8 → Except Fault (List UInt8)
  | _, [] => .error (.ending .endInString)
  | .plain, b :: bs =>
    if Char.ofUInt8 b = '"' then .ok bs
    else if Char.ofUInt8 b = '\\' then skim .escape bs
    else if b < 0x20 then .error (.before .controlCharacter bs)
    else skim .plain bs
  | .escape, b :: bs =>
    if Char.ofUInt8 b = 'u' then skim (.hex []) bs
    else if (letterEscape? (Char.ofUInt8 b)).isSome then skim .plain bs
    else .error (.before .badEscape bs)
  | .hex digits, b :: bs =>
    if digits.length < 3 then skim (.hex (digits ++ [b])) bs
    else if (hex? (digits ++ [b])).isSome then skim .plain bs
    else .error (.before .badEscape bs)

/-! ## Writing -/

def hexChar (n : Nat) : Char :=
  if n < 10 then Char.ofNat (48 + n) else Char.ofNat (87 + n)

/-- A character inside a string. -/
def quoteChar (c : Char) : List Char :=
  match c with
  | '"' => ['\\', '"']
  | '\\' => ['\\', '\\']
  | '\x08' => ['\\', 'b']
  | '\x0C' => ['\\', 'f']
  | '\n' => ['\\', 'n']
  | '\r' => ['\\', 'r']
  | '\t' => ['\\', 't']
  | _ =>
    if c.toNat < 0x20 then ['\\', 'u', '0', '0', hexChar (c.toNat / 16), hexChar (c.toNat % 16)]
    else [c]

/-- A text between quotes. -/
def quote (s : String) : List Char :=
  '"' :: s.toList.flatMap quoteChar ++ ['"']

end HealthRules.Json.Quoted
