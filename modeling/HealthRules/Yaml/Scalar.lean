import HealthRules.Yaml.Glyph

/-!
# Scalars

A scalar may run over several lines; the space between its words is folded. A gap inside a line
stays as it is. In a gap with line ends the blanks go: a single line end becomes a space, and of
several all but the first stay. Plain scalars end where something else can begin; quoted ones end at
their quote. In double quotes a backslash begins an escape, and one before a line end takes the line
end away.
-/

namespace HealthRules.Yaml

/-! ## Gaps -/

/-- The space between two words of a scalar. -/
structure Gap where
  /-- The blanks before the first line end. -/
  blanks : List Char
  /-- The line ends. -/
  breaks : List Char
deriving DecidableEq, Repr

/-- What a line end counts as. -/
def normalBreak (c : Char) : Char :=
  if c.toNat = 0x2028 ∨ c.toNat = 0x2029 then c else '\n'

/-- Reads a gap, given what was read of it. With `indent`, a tab to the left of that column on a
line of its own is a fault. Once `broken`, blanks do not count any more. -/
def readGap (indent : Option Nat) (broken : Bool) (gap : Gap) :
    List Glyph → Option (Gap × List Glyph)
  | [] => some (gap, [])
  | g :: gs =>
    if isBlank g.char then
      if broken then
        if g.char == '\t' && indent.any (g.column < ·) then none
        else readGap indent true gap gs
      else readGap indent false { gap with blanks := gap.blanks ++ [g.char] } gs
    else if g.char == '\r' && nextIs ['\n'] gs then readGap indent broken gap gs
    else if isBreak g.char then
      readGap indent true { gap with breaks := gap.breaks ++ [normalBreak g.char] } gs
    else some (gap, g :: gs)

/-- What a gap becomes in the text of a scalar. -/
def Gap.fold (gap : Gap) : List Char :=
  match gap.breaks with
  | [] => gap.blanks
  | ['\n'] => [' ']
  | '\n' :: more => more
  | breaks => breaks

/-! ## Plain scalars -/

/-- The brackets and commas of flow collections. -/
def flowMarks : List Char := [',', '[', ']', '{', '}']

/-- Reads a word of a plain scalar. In a flow collection it ends at brackets and commas too, and a
colon right before one, or before a question mark, is a fault. -/
def plainWord (inFlow : Bool) : List Glyph → Option (List Char × List Glyph)
  | [] => some ([], [])
  | g :: gs =>
    if isBlank g.char || isBreak g.char then some ([], g :: gs)
    else if inFlow && g.char == ':' && nextIs ('?' :: flowMarks) gs then none
    else if g.char == ':' && atSpace gs then some ([], g :: gs)
    else if inFlow && flowMarks.contains g.char then some ([], g :: gs)
    else (plainWord inFlow gs).map fun (word, rest) => (g.char :: word, rest)

/-- Reads the words of a plain scalar, given what was read of it and the gap before the next word.
The answer says too whether line ends were passed behind the last word. -/
def plainWords (inFlow : Bool) (indent : Nat) :
    Nat → List Char → Gap → List Glyph → Option (List Char × Bool × List Glyph)
  | 0, text, gap, gs => some (text, !gap.breaks.isEmpty, gs)
  | n + 1, text, gap, gs =>
    let broken := !gap.breaks.isEmpty
    if startsDocumentMarker gs || nextIs ['#'] gs
      || (broken && !inFlow && gs.head?.any (·.column < indent)) then
      some (text, broken, gs)
    else do
      let (word, rest) ← plainWord inFlow gs
      if word = [] then some (text, broken, rest)
      else
        let text := text ++ gap.fold ++ word
        let (gap, rest) ← readGap (some indent) false ⟨[], []⟩ rest
        plainWords inFlow indent n text gap rest

/-- Reads a plain scalar, lines of which start at a column of `indent` or more outside of flow
collections: its text, whether line ends were passed behind it, and what follows. -/
def plainScalar (inFlow : Bool) (indent : Nat) (gs : List Glyph) :
    Option (List Char × Bool × List Glyph) :=
  plainWords inFlow indent (gs.length + 1) [] ⟨[], []⟩ gs

/-! ## Quoted scalars -/

/-- The character that a backslash and one letter stand for. -/
def letterEscape? (c : Char) : Option Char :=
  match c with
  | '0' => some (Char.ofNat 0x00)
  | 'a' => some (Char.ofNat 0x07)
  | 'b' => some (Char.ofNat 0x08)
  | 't' | '\t' => some '\t'
  | 'n' => some '\n'
  | 'v' => some (Char.ofNat 0x0B)
  | 'f' => some (Char.ofNat 0x0C)
  | 'r' => some '\r'
  | 'e' => some (Char.ofNat 0x1B)
  | ' ' => some ' '
  | '"' => some '"'
  | '/' => some '/'
  | '\\' => some '\\'
  | 'N' => some (Char.ofNat 0x85)
  | '_' => some (Char.ofNat 0xA0)
  | 'L' => some (Char.ofNat 0x2028)
  | 'P' => some (Char.ofNat 0x2029)
  | _ => none

/-- How many hexadecimal digits follow the letter of an escape. -/
def hexEscape? (c : Char) : Option Nat :=
  match c with
  | 'x' => some 2
  | 'u' => some 4
  | 'U' => some 8
  | _ => none

def hexDigit? (c : Char) : Option Nat :=
  if c.isDigit then some (c.toNat - 48)
  else if 'a' ≤ c ∧ c ≤ 'f' then some (c.toNat - 87)
  else if 'A' ≤ c ∧ c ≤ 'F' then some (c.toNat - 55)
  else none

/-- The character with a code point, if it is one. -/
def ofCodePoint? (n : Nat) : Option Char :=
  if n < 0xD800 ∨ (0xDFFF < n ∧ n ≤ 0x10FFFF) then some (Char.ofNat n) else none

/-- Where a reader of a quoted scalar stands: between characters, after a backslash, or among the
digits of an escape, with so many to come. -/
inductive QuotedPlace where
  | plain
  | escape
  | hex (left : Nat) (value : Nat)

/-- Why a word of a quoted scalar ends. -/
inductive WordEnd where
  /-- The closing quote. -/
  | closed (rest : List Glyph)
  /-- A gap. -/
  | gap (rest : List Glyph)
  /-- A line end behind a backslash. -/
  | escapedBreak (rest : List Glyph)

/-- Reads a word of a quoted scalar. -/
def quotedWord (quote : Char) : QuotedPlace → List Glyph → Option (List Char × WordEnd)
  | _, [] => none
  | .plain, g :: gs =>
    if isBlank g.char || isBreak g.char then some ([], .gap (g :: gs))
    else if g.char == quote then
      match gs with
      | h :: hs =>
        if quote == '\'' && h.char == '\'' then
          (quotedWord quote .plain hs).map fun (word, stop) => ('\'' :: word, stop)
        else some ([], .closed (h :: hs))
      | [] => some ([], .closed [])
    else if quote == '"' && g.char == '\\' then
      if gs.head?.any (isBreak ·.char) then some ([], .escapedBreak gs)
      else quotedWord quote .escape gs
    else (quotedWord quote .plain gs).map fun (word, stop) => (g.char :: word, stop)
  | .escape, g :: gs =>
    match hexEscape? g.char, letterEscape? g.char with
    | some n, _ => quotedWord quote (.hex n 0) gs
    | none, some c => (quotedWord quote .plain gs).map fun (word, stop) => (c :: word, stop)
    | none, none => none
  | .hex left value, g :: gs =>
    (hexDigit? g.char).bind fun digit =>
      let value := value * 16 + digit
      if left ≤ 1 then
        (ofCodePoint? value).bind fun c =>
          (quotedWord quote .plain gs).map fun (word, stop) => (c :: word, stop)
      else quotedWord quote (.hex (left - 1) value) gs

/-- Reads the words of a quoted scalar, given what was read of it. -/
def quotedWords (quote : Char) :
    Nat → List Char → List Glyph → Option (List Char × List Glyph)
  | 0, _, _ => none
  | n + 1, text, gs =>
    if startsDocumentMarker gs then none
    else do
      let (word, stop) ← quotedWord quote .plain gs
      let text := text ++ word
      match stop with
      | .closed rest => some (text, rest)
      | .gap rest => do
        let (gap, rest) ← readGap none false ⟨[], []⟩ rest
        quotedWords quote n (text ++ gap.fold) rest
      | .escapedBreak rest => do
        let (gap, rest) ← readGap none false ⟨[], []⟩ rest
        quotedWords quote n (text ++ gap.breaks.drop 1) rest

/-- Reads a quoted scalar after its opening quote. -/
def quotedScalar (quote : Char) (gs : List Glyph) : Option (List Char × List Glyph) :=
  quotedWords quote (gs.length + 1) [] gs

end HealthRules.Yaml
