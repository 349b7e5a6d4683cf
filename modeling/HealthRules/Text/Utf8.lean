/-!
# UTF-8

`encode` writes characters as octets. `pieces` cuts octets into the characters they encode and the
shortest stretches that encode none: an octet that begins no character, or the longest beginning of
one that goes wrong after it. Three readers use the cut: `decode?` wants characters only,
`decodeLossy` puts U+FFFD for each stretch that encodes none, `validLength` counts the octets
before the first such stretch.
-/

namespace HealthRules.Text.Utf8

def encode (cs : List Char) : List UInt8 :=
  cs.flatMap String.utf8EncodeChar

/-- A character with the number of its octets, or the length of a stretch that encodes none. -/
inductive Piece where
  | char (c : Char) (length : Nat)
  | malformed (length : Nat)
deriving DecidableEq, Repr

/-- Whether an octet can follow the first ones of a character. -/
def isTail (b : UInt8) : Bool :=
  0x80 ≤ b && b ≤ 0xBF

/-- Whether `a` begins a character of two or more octets and `b` can stand second in it. -/
def isStart (a b : UInt8) : Bool :=
  if a < 0xC2 || 0xF4 < a then false
  else if a = 0xE0 then 0xA0 ≤ b && b ≤ 0xBF
  else if a = 0xED then 0x80 ≤ b && b ≤ 0x9F
  else if a = 0xF0 then 0x90 ≤ b && b ≤ 0xBF
  else if a = 0xF4 then 0x80 ≤ b && b ≤ 0x8F
  else isTail b

/-- The six bits that a tail octet carries. -/
def tailBits (b : UInt8) : Nat :=
  b.toNat % 64

/-- The characters of a sequence of octets, and its stretches that encode none. -/
def pieces : List UInt8 → List Piece
  | [] => []
  | a :: as =>
    if a < 0x80 then .char (Char.ofNat a.toNat) 1 :: pieces as
    else match as with
      | [] => [.malformed 1]
      | b :: bs =>
        if !isStart a b then .malformed 1 :: pieces (b :: bs)
        else if a < 0xE0 then
          .char (Char.ofNat (a.toNat % 32 * 64 + tailBits b)) 2 :: pieces bs
        else match bs with
          | [] => [.malformed 2]
          | c :: cs =>
            if !isTail c then .malformed 2 :: pieces (c :: cs)
            else if a < 0xF0 then
              .char (Char.ofNat ((a.toNat % 16 * 64 + tailBits b) * 64 + tailBits c)) 3
                :: pieces cs
            else match cs with
              | [] => [.malformed 3]
              | d :: ds =>
                if !isTail d then .malformed 3 :: pieces (d :: ds)
                else
                  .char (Char.ofNat
                    (((a.toNat % 8 * 64 + tailBits b) * 64 + tailBits c) * 64 + tailBits d)) 4
                    :: pieces ds

/-- The characters that octets encode, if they encode nothing else. -/
def decode? (bytes : List UInt8) : Option (List Char) :=
  (pieces bytes).mapM fun
    | .char c _ => some c
    | .malformed _ => none

/-- The characters that octets encode, with U+FFFD for each stretch that encodes none. -/
def decodeLossy (bytes : List UInt8) : List Char :=
  (pieces bytes).map fun
    | .char c _ => c
    | .malformed _ => Char.ofNat 0xFFFD

/-- How many octets of leading pieces are characters. -/
def leadingLength : List Piece → Nat
  | .char _ length :: ps => length + leadingLength ps
  | _ => 0

/-- How many octets stand before the first stretch that encodes no character. -/
def validLength (bytes : List UInt8) : Nat :=
  leadingLength (pieces bytes)

end HealthRules.Text.Utf8
