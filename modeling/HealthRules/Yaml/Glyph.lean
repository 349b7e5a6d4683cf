/-!
# Characters with their places

YAML reads meaning from lines and columns, so a text is first made into glyphs: characters that
know where they stand. Lines end at a line feed, a carriage return (together with a line feed behind
it), U+0085, U+2028 and U+2029. Control characters other than tab and line ends are not allowed. A
byte order mark takes a column as any character does.
-/

namespace HealthRules.Yaml

/-- A character, its line and its column, both from zero, and how many octets of UTF-8 come before
it. -/
structure Glyph where
  char : Char
  line : Nat
  column : Nat
  offset : Nat
deriving DecidableEq, Repr

/-- A character that ends a line. -/
def isBreak (c : Char) : Bool :=
  c == '\n' || c == '\r' || c.toNat == 0x85 || c.toNat == 0x2028 || c.toNat == 0x2029

/-- A character that separates words inside a line. -/
def isBlank (c : Char) : Bool :=
  c == ' ' || c == '\t'

/-- A character that a YAML text may hold. -/
def isAllowed (c : Char) : Bool :=
  let n := c.toNat
  c == '\t' || c == '\n' || c == '\r' || (0x20 ≤ n && n ≤ 0x7E) || n == 0x85
    || (0xA0 ≤ n && n ≤ 0xD7FF) || (0xE000 ≤ n && n ≤ 0xFFFD) || 0x10000 ≤ n

/-- The character that may mark the order of octets in front of a line. -/
def isByteOrderMark (c : Char) : Bool :=
  c.toNat == 0xFEFF

/-- The glyphs of a text from a place on. -/
def glyphsFrom (line column offset : Nat) : List Char → List Glyph
  | [] => []
  | c :: cs =>
    let glyph : Glyph := ⟨c, line, column, offset⟩
    if isBreak c && !(c == '\r' && cs.head? == some '\n') then
      glyph :: glyphsFrom (line + 1) 0 (offset + c.utf8Size) cs
    else glyph :: glyphsFrom line (column + 1) (offset + c.utf8Size) cs

/-- The glyphs of a text; none if a character is not allowed. -/
def glyphs? (cs : List Char) : Option (List Glyph) :=
  if cs.all isAllowed then some (glyphsFrom 0 0 0 cs) else none

/-- Whether the text ends here, or a line or a word does. -/
def atSpace : List Glyph → Bool
  | [] => true
  | g :: _ => isBlank g.char || isBreak g.char

/-- Whether the next character is one of those given. -/
def nextIs (chars : List Char) : List Glyph → Bool
  | [] => false
  | g :: _ => chars.contains g.char

/-- Whether a line starts here with three of the character and then space. -/
def startsMarker (c : Char) : List Glyph → Bool
  | g :: h :: i :: rest =>
    g.column == 0 && g.char == c && h.char == c && i.char == c && atSpace rest
  | _ => false

/-- Whether a line starts here that separates documents. -/
def startsDocumentMarker (gs : List Glyph) : Bool :=
  startsMarker '-' gs || startsMarker '.' gs

end HealthRules.Yaml
