import HealthRules.Yaml.Token

/-!
# Nodes

A YAML document is a scalar, a sequence or a mapping. `Node.ofText?` reads the only document of a
text; a text without any tokens holds no document, which is no fault. What is left out, behind a
colon or a dash for instance, is an empty plain scalar.
-/

namespace HealthRules.Yaml

inductive Node where
  | scalar (plain : Bool) (text : String)
  | sequence (items : List Node)
  | mapping (entries : List (Node × Node))

namespace Node

/-- What stands where nothing is written. -/
def nothing : Node := .scalar true ""

/-- Whether the next token is one of those given. -/
def nextIn (kinds : List Token) (tokens : List Token) : Bool :=
  tokens.head?.any kinds.contains

/-- The tokens before which a part of a block mapping is left out. -/
def blockGaps : List Token := [.key, .value, .blockEnd]

section
variable (node : Bool → Bool → List Token → Option (Node × List Token))

/-- Reads a node unless one of the given tokens comes next. -/
def optional (gaps : List Token) (block indentless : Bool) (tokens : List Token) :
    Option (Node × List Token) :=
  if nextIn gaps tokens then some (nothing, tokens) else node block indentless tokens

/-- Reads the items of a block sequence and its end. -/
def blockItems : Nat → List Token → Option (List Node × List Token)
  | n + 1, .entry :: tokens => do
    let (item, tokens) ← optional node [.entry, .blockEnd] true false tokens
    let (items, tokens) ← blockItems n tokens
    return (item :: items, tokens)
  | _ + 1, .blockEnd :: tokens => some ([], tokens)
  | _, _ => none

/-- Reads the items of a sequence that stands right below its key, at the key's column. -/
def indentlessItems : Nat → List Token → Option (List Node × List Token)
  | n + 1, .entry :: tokens => do
    let (item, tokens) ← optional node (.entry :: blockGaps) true false tokens
    let (items, tokens) ← indentlessItems n tokens
    return (item :: items, tokens)
  | _ + 1, tokens => some ([], tokens)
  | 0, _ => none

/-- Reads what stands behind a colon, if there is one. -/
def optionalValue (gaps : List Token) (block : Bool) :
    List Token → Option (Node × List Token)
  | .value :: tokens => optional node gaps block block tokens
  | tokens => some (nothing, tokens)

/-- Reads the entries of a block mapping and its end. -/
def blockEntries : Nat → List Token → Option (List (Node × Node) × List Token)
  | n + 1, .key :: tokens => do
    let (key, tokens) ← optional node blockGaps true true tokens
    let (value, tokens) ← optionalValue node blockGaps true tokens
    let (entries, tokens) ← blockEntries n tokens
    return ((key, value) :: entries, tokens)
  | _ + 1, .blockEnd :: tokens => some ([], tokens)
  | _, _ => none

/-- Reads an entry of a flow mapping: a key with a value, or a key alone. -/
def flowEntry : List Token → Option ((Node × Node) × List Token)
  | .key :: tokens => do
    let (key, tokens) ← optional node [.value, .comma, .flowMappingEnd] false false tokens
    let (value, tokens) ← optionalValue node [.comma, .flowMappingEnd] false tokens
    return ((key, value), tokens)
  | tokens => (node false false tokens).map fun (key, tokens) => ((key, nothing), tokens)

/-- Reads the entries of a flow mapping and its end; all but the first come behind a comma. -/
def flowEntries : Nat → Bool → List Token → Option (List (Node × Node) × List Token)
  | 0, _, _ => none
  | _ + 1, _, .flowMappingEnd :: tokens => some ([], tokens)
  | n + 1, first, tokens => do
    let tokens ← match first, tokens with
      | true, tokens => some tokens
      | false, .comma :: tokens => some tokens
      | false, _ => none
    match tokens with
    | .flowMappingEnd :: tokens => some ([], tokens)
    | tokens => do
      let (entry, tokens) ← flowEntry node tokens
      let (entries, tokens) ← flowEntries n false tokens
      return (entry :: entries, tokens)

/-- Reads an item of a flow sequence; a key in it makes a mapping of one entry. A key mark without
a key takes the token behind it along. -/
def flowItem : List Token → Option (Node × List Token)
  | .key :: tokens => do
    let (key, tokens) ←
      if nextIn [.value, .comma, .flowSequenceEnd] tokens then some (nothing, tokens.drop 1)
      else node false false tokens
    let (value, tokens) ← optionalValue node [.comma, .flowSequenceEnd] false tokens
    return (.mapping [(key, value)], tokens)
  | tokens => node false false tokens

/-- Reads the items of a flow sequence and its end; all but the first come behind a comma. -/
def flowItems : Nat → Bool → List Token → Option (List Node × List Token)
  | 0, _, _ => none
  | _ + 1, _, .flowSequenceEnd :: tokens => some ([], tokens)
  | n + 1, first, tokens => do
    let tokens ← match first, tokens with
      | true, tokens => some tokens
      | false, .comma :: tokens => some tokens
      | false, _ => none
    match tokens with
    | .flowSequenceEnd :: tokens => some ([], tokens)
    | tokens => do
      let (item, tokens) ← flowItem node tokens
      let (items, tokens) ← flowItems n false tokens
      return (item :: items, tokens)

end

/-- Reads a node: of a block collection only where `block` says so, and of a sequence at its key's
column only where `indentless` does. The first argument bounds how deep nodes are nested. -/
def read : Nat → Bool → Bool → List Token → Option (Node × List Token)
  | 0, _, _, _ => none
  | n + 1, block, indentless, tokens =>
    match tokens with
    | .scalar plain text :: tokens => some (.scalar plain text, tokens)
    | .flowSequenceStart :: tokens =>
      (flowItems (read n) (tokens.length + 1) true tokens).map fun (items, tokens) =>
        (.sequence items, tokens)
    | .flowMappingStart :: tokens =>
      (flowEntries (read n) (tokens.length + 1) true tokens).map fun (entries, tokens) =>
        (.mapping entries, tokens)
    | .blockSequenceStart :: tokens =>
      if block then
        (blockItems (read n) (tokens.length + 1) tokens).map fun (items, tokens) =>
          (.sequence items, tokens)
      else none
    | .blockMappingStart :: tokens =>
      if block then
        (blockEntries (read n) (tokens.length + 1) tokens).map fun (entries, tokens) =>
          (.mapping entries, tokens)
      else none
    | .entry :: _ =>
      if indentless then
        (indentlessItems (read n) (tokens.length + 1) tokens).map fun (items, tokens) =>
          (.sequence items, tokens)
      else none
    | _ => none

/-- Reads the content of a document whose start is marked. -/
def readMarked (n : Nat) (tokens : List Token) : Option (Node × List Token) :=
  if tokens.isEmpty || nextIn [.documentStart, .documentEnd] tokens then some (nothing, tokens)
  else read n true false tokens

/-- Whether nothing but ends of documents follows. -/
def atEnd (tokens : List Token) : Bool :=
  tokens.all (· == .documentEnd)

/-- The only document of some tokens, or none if there are no tokens. -/
def ofTokens? (tokens : List Token) : Option (Option Node) :=
  match tokens with
  | [] => some none
  | _ =>
    let content := match tokens with
      | .documentStart :: tokens => readMarked (tokens.length + 1) tokens
      | tokens => read (tokens.length + 1) true false tokens
    content.bind fun (node, rest) => if atEnd rest then some (some node) else none

/-- The only document of a text, or none if the text holds no tokens. -/
def ofText? (cs : List Char) : Option (Option Node) :=
  (tokens? cs).bind ofTokens?

end Node
end HealthRules.Yaml
