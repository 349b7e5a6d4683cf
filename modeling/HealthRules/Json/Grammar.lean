import HealthRules.Json.Fault

/-!
# The grammar of JSON

`value D depth bytes` reads one value in front of `bytes`. What a value becomes is up to a
`Denotation`: how numbers, strings and keys are read, and what is built of a list or of members. At
most `depth` lists and objects may be open at once. `read` wants a whole text: one value with
white space around it.
-/

namespace HealthRules.Json

/-- What the values of a text become. -/
structure Denotation (κ α : Type) where
  null : α
  bool : Bool → α
  /-- Reads a number after its minus, if it has one. -/
  number : Bool → List UInt8 → Except Fault (α × List UInt8)
  /-- Reads a string after its opening quote. -/
  string : List UInt8 → Except Fault (α × List UInt8)
  /-- Reads a key after its opening quote. -/
  key : List UInt8 → Except Fault (κ × List UInt8)
  array : List α → α
  object : List (κ × α) → α

/-- The white space of JSON. -/
def isBlank (b : UInt8) : Bool :=
  b == 0x20 || b == 0x09 || b == 0x0A || b == 0x0D

def skipBlank (bytes : List UInt8) : List UInt8 :=
  bytes.dropWhile isBlank

/-- Reads the letters of a word. -/
def word : List Char → List UInt8 → Except Fault (List UInt8)
  | [], bytes => .ok bytes
  | _ :: _, [] => .error (.ending .endInValue)
  | c :: cs, b :: bs => if Char.ofUInt8 b = c then word cs bs else .error (.before .badWord bs)

section
variable {α : Type} (element : List UInt8 → Except Fault (α × List UInt8))

/-- Reads what follows an element of a list, up to the closing bracket. The first argument bounds
the number of elements. -/
def elements : Nat → List UInt8 → Except Fault (List α × List UInt8)
  | 0, _ => .error (.ending .endInList)
  | n + 1, bytes =>
    match skipBlank bytes with
    | [] => .error (.ending .endInList)
    | b :: bs =>
      if Char.ofUInt8 b = ']' then .ok ([], bs)
      else if Char.ofUInt8 b = ',' then
        match skipBlank bs with
        | [] => .error (.ending .endInValue)
        | c :: cs =>
          if Char.ofUInt8 c = ']' then .error (.before .trailingComma cs)
          else do
            let (x, rest) ← element (c :: cs)
            let (xs, rest) ← elements n rest
            return (x :: xs, rest)
      else .error (.before .noListEnd bs)

/-- Reads a list after its opening bracket. -/
def listItems (bytes : List UInt8) : Except Fault (List α × List UInt8) :=
  match skipBlank bytes with
  | [] => .error (.ending .endInList)
  | b :: bs =>
    if Char.ofUInt8 b = ']' then .ok ([], bs)
    else do
      let (x, rest) ← element (b :: bs)
      let (xs, rest) ← elements element (rest.length + 1) rest
      return (x :: xs, rest)

section
variable {κ : Type} (key : List UInt8 → Except Fault (κ × List UInt8))

/-- Reads a member of an object after the opening quote of its key. -/
def member (bytes : List UInt8) : Except Fault ((κ × α) × List UInt8) := do
  let (name, rest) ← key bytes
  match skipBlank rest with
  | [] => .error (.ending .endInObject)
  | b :: bs =>
    if Char.ofUInt8 b = ':' then
      let (x, rest) ← element bs
      return ((name, x), rest)
    else .error (.before .noColon bs)

/-- Reads what follows a member of an object, up to the closing brace. The first argument bounds
the number of members. -/
def members : Nat → List UInt8 → Except Fault (List (κ × α) × List UInt8)
  | 0, _ => .error (.ending .endInObject)
  | n + 1, bytes =>
    match skipBlank bytes with
    | [] => .error (.ending .endInObject)
    | b :: bs =>
      if Char.ofUInt8 b = '}' then .ok ([], bs)
      else if Char.ofUInt8 b = ',' then
        match skipBlank bs with
        | [] => .error (.ending .endInValue)
        | c :: cs =>
          if Char.ofUInt8 c = '"' then do
            let (x, rest) ← member element key cs
            let (xs, rest) ← members n rest
            return (x :: xs, rest)
          else if Char.ofUInt8 c = '}' then .error (.before .trailingComma cs)
          else .error (.before .keyNotString cs)
      else .error (.before .noObjectEnd bs)

/-- Reads an object after its opening brace. -/
def objectMembers (bytes : List UInt8) : Except Fault (List (κ × α) × List UInt8) :=
  match skipBlank bytes with
  | [] => .error (.ending .endInObject)
  | b :: bs =>
    if Char.ofUInt8 b = '}' then .ok ([], bs)
    else if Char.ofUInt8 b = '"' then do
      let (x, rest) ← member element key bs
      let (xs, rest) ← members element key (rest.length + 1) rest
      return (x :: xs, rest)
    else .error (.before .keyNotString bs)

end
end

/-- Reads one value, with at most `depth` lists and objects open at once. -/
def value {κ α : Type} (D : Denotation κ α) :
    Nat → List UInt8 → Except Fault (α × List UInt8)
  | depth, bytes =>
    match skipBlank bytes with
    | [] => .error (.ending .endInValue)
    | b :: bs =>
      match Char.ofUInt8 b with
      | 'n' => (word ['u', 'l', 'l'] bs).map (D.null, ·)
      | 't' => (word ['r', 'u', 'e'] bs).map (D.bool true, ·)
      | 'f' => (word ['a', 'l', 's', 'e'] bs).map (D.bool false, ·)
      | '"' => D.string bs
      | '-' => D.number true bs
      | '[' =>
        match depth with
        | 0 => .error (.before .tooDeep bs)
        | depth + 1 => (listItems (value D depth) bs).map fun (xs, rest) => (D.array xs, rest)
      | '{' =>
        match depth with
        | 0 => .error (.before .tooDeep bs)
        | depth + 1 =>
          (objectMembers (value D depth) D.key bs).map fun (xs, rest) => (D.object xs, rest)
      | c =>
        if c.isDigit then D.number false (b :: bs) else .error (.before .noValue bs)

/-- Reads a whole text. -/
def read {κ α : Type} (D : Denotation κ α) (depth : Nat) (bytes : List UInt8) :
    Except Fault α := do
  let (x, rest) ← value D depth bytes
  match skipBlank rest with
  | [] => return x
  | _ :: bs => .error (.before .trailingCharacters bs)

end HealthRules.Json
