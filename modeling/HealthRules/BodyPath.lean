import HealthRules.Number.Digits

/-!
# Paths into a JSON body

A path is a list of steps, `.key` into an object or `[index]` into an array. A key is not empty
and holds none of `.`, `[`, `]`, space and tab; an index is an unsigned number of 64 bits, with
an optional plus in front. `BodyPath.print` writes a path with plain indices.
-/

namespace HealthRules

/-- One step into a JSON value. -/
inductive Step where
  | key (name : String)
  | index (n : Nat)
deriving DecidableEq, Repr

abbrev BodyPath := List Step

namespace BodyPath

/-- Whether a character may stand in a key. -/
def isKeyChar (c : Char) : Bool :=
  c != '.' && c != '[' && c != ']' && c != ' ' && c != '\t'

/-- Where a reader of a path stands: between steps, or inside one with what was read of it. -/
inductive Place where
  | between
  | key (name : List Char)
  | index (digits : List Char)

/-- The steps that the rest of a path writes. -/
def steps? : Place → List Char → Option BodyPath
  | .between, [] => some []
  | .between, '.' :: cs => steps? (.key []) cs
  | .between, '[' :: cs => steps? (.index []) cs
  | .between, _ :: _ => none
  | .key name, [] => if name = [] then none else some [.key (String.ofList name)]
  | .key name, '.' :: cs =>
    if name = [] then none else (steps? (.key []) cs).map (.key (String.ofList name) :: ·)
  | .key name, '[' :: cs =>
    if name = [] then none else (steps? (.index []) cs).map (.key (String.ofList name) :: ·)
  | .key name, c :: cs => if isKeyChar c then steps? (.key (name ++ [c])) cs else none
  | .index _, [] => none
  | .index digits, ']' :: cs =>
    (Number.unsigned64? digits).bind fun n => (steps? .between cs).map (.index n :: ·)
  | .index digits, c :: cs => steps? (.index (digits ++ [c])) cs

/-- The path that a text writes. -/
def ofText? (cs : List Char) : Option BodyPath :=
  steps? .between cs

/-- One step as it is written. -/
def printStep : Step → List Char
  | .key name => '.' :: name.toList
  | .index n => '[' :: Number.ofNat n ++ [']']

/-- A path as it is written. -/
def print (path : BodyPath) : List Char :=
  path.flatMap printStep

end BodyPath
end HealthRules
