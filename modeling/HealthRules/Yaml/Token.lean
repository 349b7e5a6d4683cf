import HealthRules.Yaml.Scalar

/-!
# Tokens

A YAML text as tokens: scalars, the marks of flow collections, and for block collections, which the
text shows by indentation, marks of their starts and ends. Whether a scalar or a flow collection is
a key is known only at the colon behind it; so the place of each possible key is kept, one for
every flow collection that is open, and the key mark is put there later. A key ends on the line it
begins on, within 1024 octets of UTF-8.

Anchors, aliases, tags, block scalars and directives are not part of the language that is read.
-/

namespace HealthRules.Yaml

inductive Token where
  | documentStart
  | documentEnd
  | blockSequenceStart
  | blockMappingStart
  | blockEnd
  | flowSequenceStart
  | flowSequenceEnd
  | flowMappingStart
  | flowMappingEnd
  /-- The dash before an item of a block sequence. -/
  | entry
  /-- The comma in a flow collection. -/
  | comma
  | key
  | value
  | scalar (plain : Bool) (text : String)
deriving DecidableEq, Repr

/-- Where a key would begin. -/
structure KeyPlace where
  /-- How many tokens come before it. -/
  position : Nat
  line : Nat
  column : Nat
  /-- How many octets of the text come before it. -/
  offset : Nat
  /-- Whether nothing but a key can stand there. -/
  required : Bool
deriving DecidableEq, Repr

/-- What is known while a text is read. -/
structure Scanner where
  rest : List Glyph
  /-- The tokens so far, the newest first. -/
  tokens : List Token
  /-- The column of the innermost block collection, or -1. -/
  indent : Int
  /-- The columns of the block collections around it. -/
  outer : List Int
  /-- Whether a key may begin here. -/
  keyAllowed : Bool
  /-- The possible key on the current level. -/
  candidate : Option KeyPlace
  /-- The possible keys on the levels around the open flow collections. -/
  candidates : List (Option KeyPlace)

namespace Scanner

def start (gs : List Glyph) : Scanner where
  rest := gs
  tokens := []
  indent := -1
  outer := []
  keyAllowed := true
  candidate := none
  candidates := []

/-- Whether a flow collection is open. -/
def inFlow (s : Scanner) : Bool :=
  !s.candidates.isEmpty

def push (s : Scanner) (t : Token) : Scanner :=
  { s with tokens := t :: s.tokens }

/-- Puts a token behind the first `position` ones. -/
def insert (s : Scanner) (position : Nat) (t : Token) : Scanner :=
  let newer := s.tokens.length - position
  { s with tokens := s.tokens.take newer ++ t :: s.tokens.drop newer }

/-! ## Space between tokens -/

/-- Skips blanks, comments, line ends and the byte order mark that a line may start with. A tab
counts as a blank only where no block key can begin; a line end makes a key possible outside of flow
collections. -/
def skipSpace (inFlow : Bool) : Bool → Bool → List Glyph → Bool × List Glyph
  | _, allowed, [] => (allowed, [])
  | comment, allowed, g :: gs =>
    if isBreak g.char then skipSpace inFlow false (allowed || !inFlow) gs
    else if comment then skipSpace inFlow true allowed gs
    else if g.column == 0 && isByteOrderMark g.char then skipSpace inFlow false allowed gs
    else if g.char == ' ' || (g.char == '\t' && (inFlow || !allowed)) then
      skipSpace inFlow false allowed gs
    else if g.char == '#' then skipSpace inFlow true allowed gs
    else (allowed, g :: gs)

/-! ## Block collections -/

/-- Ends block collections that start to the right of a column. -/
def closeBlocks (column indent : Int) : List Int → List Token → Int × List Int × List Token
  | [], tokens => (indent, [], tokens)
  | around :: outer, tokens =>
    if column < indent then closeBlocks column around outer (.blockEnd :: tokens)
    else (indent, around :: outer, tokens)

/-- Ends the block collections that cannot hold a token at a column. -/
def unroll (s : Scanner) (column : Int) : Scanner :=
  if s.inFlow then s
  else
    let (indent, outer, tokens) := closeBlocks column s.indent s.outer s.tokens
    { s with indent := indent, outer := outer, tokens := tokens }

/-- Starts a block collection at a column, its mark behind the first `position` tokens, unless one
has started there. -/
def roll (s : Scanner) (column position : Nat) (t : Token) : Scanner :=
  if s.inFlow || (column : Int) ≤ s.indent then s
  else { s with indent := column, outer := s.indent :: s.outer }.insert position t

/-! ## Possible keys -/

/-- A possible key that is no more so at a glyph: one that began on an earlier line or too far
before. A required one is missed then. -/
def expire (g : Glyph) (key : Option KeyPlace) : Option (Option KeyPlace) :=
  match key with
  | none => some none
  | some k =>
    if k.line < g.line || k.offset + 1024 < g.offset then
      if k.required then none else some none
    else some (some k)

def expireAll (s : Scanner) (g : Glyph) : Option Scanner := do
  let candidate ← expire g s.candidate
  let candidates ← s.candidates.mapM (expire g)
  return { s with candidate := candidate, candidates := candidates }

/-- Gives up the possible key on the current level; a required one is missed then. -/
def dropKey (s : Scanner) : Option Scanner :=
  if s.candidate.any (·.required) then none else some { s with candidate := none }

/-- Remembers that a key may begin at a glyph. -/
def saveKey (s : Scanner) (g : Glyph) : Option Scanner :=
  if s.keyAllowed then
    s.dropKey.map fun s =>
      let required := !s.inFlow && s.indent == (g.column : Int)
      { s with candidate := some ⟨s.tokens.length, g.line, g.column, g.offset, required⟩ }
  else some s

/-! ## Tokens -/

/-- A line that separates documents ends every block collection. -/
def documentMark (s : Scanner) (t : Token) : Option Scanner :=
  (s.unroll (-1)).dropKey.map fun s =>
    { s with keyAllowed := false, rest := s.rest.drop 3 }.push t

def openFlow (s : Scanner) (g : Glyph) (gs : List Glyph) (t : Token) : Option Scanner :=
  (s.saveKey g).map fun s =>
    { s with
      candidates := s.candidate :: s.candidates
      candidate := none
      keyAllowed := true
      rest := gs }.push t

def closeFlow (s : Scanner) (gs : List Glyph) (t : Token) : Option Scanner :=
  s.dropKey.map fun s =>
    let s := match s.candidates with
      | candidate :: around => { s with candidate := candidate, candidates := around }
      | [] => s
    { s with keyAllowed := false, rest := gs }.push t

def flowComma (s : Scanner) (gs : List Glyph) : Option Scanner :=
  s.dropKey.map fun s => { s with keyAllowed := true, rest := gs }.push .comma

def blockEntry (s : Scanner) (g : Glyph) (gs : List Glyph) : Option Scanner :=
  if s.inFlow || s.keyAllowed then
    (s.roll g.column s.tokens.length .blockSequenceStart).dropKey.map fun s =>
      { s with keyAllowed := true, rest := gs }.push .entry
  else none

def explicitKey (s : Scanner) (g : Glyph) (gs : List Glyph) : Option Scanner :=
  if s.inFlow || s.keyAllowed then
    (s.roll g.column s.tokens.length .blockMappingStart).dropKey.map fun s =>
      { s with keyAllowed := !s.inFlow, rest := gs }.push .key
  else none

/-- The colon makes the possible key one. -/
def valueMark (s : Scanner) (g : Glyph) (gs : List Glyph) : Option Scanner :=
  match s.candidate with
  | some k =>
    let s := (s.insert k.position .key).roll k.column k.position .blockMappingStart
    some ({ s with candidate := none, keyAllowed := false, rest := gs }.push .value)
  | none =>
    if s.inFlow || s.keyAllowed then
      let s := s.roll g.column s.tokens.length .blockMappingStart
      some ({ s with keyAllowed := !s.inFlow, rest := gs }.push .value)
    else none

def quoted (s : Scanner) (g : Glyph) (gs : List Glyph) : Option Scanner := do
  let s ← s.saveKey g
  let (text, rest) ← quotedScalar g.char gs
  return { s with keyAllowed := false, rest := rest }.push (.scalar false (String.ofList text))

def plain (s : Scanner) (g : Glyph) : Option Scanner := do
  let s ← s.saveKey g
  let (text, broken, rest) ← plainScalar s.inFlow (s.indent + 1).toNat s.rest
  return { s with keyAllowed := broken, rest := rest }.push (.scalar true (String.ofList text))

/-- Characters that mean something at the start of a token. -/
def indicators : List Char :=
  ['-', '?', ':', ',', '[', ']', '{', '}', '#', '&', '*', '!', '|', '>', '\'', '"', '%', '@',
    Char.ofNat 0x60]

/-- Whether a plain scalar can begin with a glyph. -/
def startsPlain (inFlow : Bool) (g : Glyph) (gs : List Glyph) : Bool :=
  let c := g.char
  !(isBlank c || isBreak c || indicators.contains c)
    || (c == '-' && !nextIs [' ', '\t'] gs)
    || (!inFlow && (c == '?' || c == ':') && !atSpace gs)

/-- Reads the token that begins with a glyph. -/
def token (s : Scanner) (g : Glyph) (gs : List Glyph) : Option Scanner :=
  let c := g.char
  if g.column = 0 ∧ c = '%' then none
  else if startsMarker '-' s.rest then s.documentMark .documentStart
  else if startsMarker '.' s.rest then s.documentMark .documentEnd
  else if c = '[' then s.openFlow g gs .flowSequenceStart
  else if c = '{' then s.openFlow g gs .flowMappingStart
  else if c = ']' then s.closeFlow gs .flowSequenceEnd
  else if c = '}' then s.closeFlow gs .flowMappingEnd
  else if c = ',' then s.flowComma gs
  else if c = '-' ∧ atSpace gs then s.blockEntry g gs
  else if c = '?' ∧ (s.inFlow ∨ atSpace gs) then s.explicitKey g gs
  else if c = ':' ∧ (s.inFlow ∨ atSpace gs) then s.valueMark g gs
  else if c = '\'' ∨ c = '"' then s.quoted g gs
  else if startsPlain s.inFlow g gs then s.plain g
  else none

/-- Reads all tokens, the newest first. -/
def run : Nat → Scanner → Option (List Token)
  | 0, _ => none
  | n + 1, s =>
    let (allowed, rest) := skipSpace s.inFlow false s.keyAllowed s.rest
    let s := { s with keyAllowed := allowed, rest := rest }
    match rest with
    | [] => (s.unroll (-1)).dropKey.map (·.tokens)
    | g :: gs => do
      let s ← s.expireAll g
      let s ← (s.unroll g.column).token g gs
      run n s

end Scanner

/-- The tokens of a text. -/
def tokens? (cs : List Char) : Option (List Token) := do
  let gs ← glyphs? cs
  let newestFirst ← (Scanner.start gs).run (gs.length + 1)
  return newestFirst.reverse

end HealthRules.Yaml
