import HealthRules.Json.Basic
import HealthRules.Json.Fault
import HealthRules.Number.Digits
import HealthRules.Number.Shortest

/-!
# Reading and writing JSON numbers

A number without point and exponent is kept whole if it is in range and not `-0`. Any other number
is read into a significand of 64 bits and an exponent of ten: digits go into the significand while
it does not overflow; after the first integer digit that does not fit, each integer digit raises
the exponent by one; after the first fraction digit that does not fit, fraction digits are
dropped. The significand is rounded to binary and then multiplied or divided once by a rounded
power of ten, which is not always the nearest number to the text.

A binary number is written with its shortest digits: in plain notation when the leading digit
stands for a power of ten from -5 to 15, with an exponent otherwise.
-/

namespace HealthRules.Numeral

open Number (Binary64 maxUnsigned64)
open Json (Fault Reason)

def isDigit (b : UInt8) : Bool :=
  (Char.ofUInt8 b).isDigit

def digitValue (b : UInt8) : Nat :=
  b.toNat - 48

/-- The significand with one more digit, if it fits. -/
def push? (significand digit : Nat) : Option Nat :=
  let n := significand * 10 + digit
  if n ≤ maxUnsigned64 then some n else none

/-- Reads integer digits: the significand, how many digits did not fit, and what follows. -/
def integerDigits (significand : Nat) : List UInt8 → Nat × Nat × List UInt8
  | [] => (significand, 0, [])
  | b :: bs =>
    if isDigit b then
      match push? significand (digitValue b) with
      | some s => integerDigits s bs
      | none => (significand, 1 + (bs.takeWhile isDigit).length, bs.dropWhile isDigit)
    else (significand, 0, b :: bs)

/-- Reads fraction digits: the significand, how many digits went into it, and what follows. -/
def fractionDigits (significand places : Nat) : List UInt8 → Nat × Nat × List UInt8
  | [] => (significand, places, [])
  | b :: bs =>
    if isDigit b then
      match push? significand (digitValue b) with
      | some s => fractionDigits s (places + 1) bs
      | none => (significand, places, bs.dropWhile isDigit)
    else (significand, places, b :: bs)

/-- The greatest exponent that is read in full. -/
def maxExponent : Nat := Nat.pow 2 31 - 1

/-- Reads exponent digits after the first: the exponent and what follows, or what follows the
digit at which the exponent grew too large. -/
def exponentDigits (exponent : Nat) : List UInt8 → Except (List UInt8) (Nat × List UInt8)
  | [] => .ok (exponent, [])
  | b :: bs =>
    if isDigit b then
      let e := exponent * 10 + digitValue b
      if e ≤ maxExponent then exponentDigits e bs else .error bs
    else .ok (exponent, b :: bs)

/-- A power of ten, rounded. -/
def tenTo (n : Nat) : Binary64 :=
  (Binary64.ofDecimal? 1 n).getD Binary64.zero

/-- The number times a power of ten: one multiplication or division for an exponent up to 308;
below that, a division by `10 ^ 308` first, three of which leave zero of any significand. -/
def scale? : Nat → Binary64 → Int → Option Binary64
  | 0, x, _ => some x
  | n + 1, x, exponent =>
    if x.units = 0 then some x
    else if 308 < exponent then none
    else if exponent < -308 then
      (x.div? (tenTo 308)).bind fun x => scale? n x (exponent + 308)
    else if 0 ≤ exponent then x.mul? (tenTo exponent.toNat)
    else x.div? (tenTo (-exponent).toNat)

/-- The binary number of a significand and an exponent, with its sign. -/
def ofParts? (negative : Bool) (significand : Nat) (exponent : Int) : Option Numeral :=
  ((Binary64.ofNat? significand).bind fun x => scale? 4 x exponent).map fun x =>
    float ⟨negative, x.units⟩

/-- The number that has been read in front of `rest`. -/
def finish (negative : Bool) (significand : Nat) (exponent : Int) (rest : List UInt8) :
    Except Fault (Numeral × List UInt8) :=
  match ofParts? negative significand exponent with
  | some n => .ok (n, rest)
  | none => .error (.before .numberOutOfRange rest)

/-- Reads what follows the `e` of a number. -/
def readExponent (negative : Bool) (significand : Nat) (exponent : Int) (bytes : List UInt8) :
    Except Fault (Numeral × List UInt8) :=
  let (down, bytes) := match bytes with
    | b :: bs =>
      if Char.ofUInt8 b = '+' then (false, bs)
      else if Char.ofUInt8 b = '-' then (true, bs)
      else (false, bytes)
    | [] => (false, [])
  match bytes with
  | [] => .error (.ending .endInValue)
  | b :: bs =>
    if isDigit b then
      match exponentDigits (digitValue b) bs with
      | .ok (e, rest) =>
        finish negative significand (if down then exponent - e else exponent + e) rest
      | .error rest =>
        if significand ≠ 0 ∧ !down then .error (.before .numberOutOfRange rest)
        else .ok (float ⟨negative, 0⟩, rest.dropWhile isDigit)
    else .error (.before .badNumber bs)

/-- Reads an exponent if one follows. -/
def readTail (negative : Bool) (significand : Nat) (exponent : Int) (bytes : List UInt8) :
    Except Fault (Numeral × List UInt8) :=
  match bytes with
  | b :: bs =>
    if Char.ofUInt8 b = 'e' ∨ Char.ofUInt8 b = 'E' then
      readExponent negative significand exponent bs
    else finish negative significand exponent bytes
  | [] => finish negative significand exponent []

/-- Reads what follows the point of a number. -/
def readFraction (negative : Bool) (significand : Nat) (exponent : Int) (bytes : List UInt8) :
    Except Fault (Numeral × List UInt8) :=
  match bytes with
  | [] => .error (.ending .endInValue)
  | b :: _ =>
    if isDigit b then
      let (significand, places, rest) := fractionDigits significand 0 bytes
      readTail negative significand (exponent - places) rest
    else .error (.looking .badNumber bytes)

/-- A number without point and exponent: whole if it is in range and not `-0`. -/
def whole (negative : Bool) (significand : Nat) (rest : List UInt8) :
    Except Fault (Numeral × List UInt8) :=
  if !negative then .ok (integer significand, rest)
  else if significand = 0 ∨ Nat.pow 2 63 < significand then finish negative significand 0 rest
  else .ok (integer (-(significand : Int)), rest)

/-- Reads what follows the integer digits of a number, `dropped` of which did not fit. -/
def readAfterInteger (negative : Bool) (significand dropped : Nat) (bytes : List UInt8) :
    Except Fault (Numeral × List UInt8) :=
  match bytes with
  | b :: bs =>
    if Char.ofUInt8 b = '.' then readFraction negative significand dropped bs
    else if Char.ofUInt8 b = 'e' ∨ Char.ofUInt8 b = 'E' then
      readExponent negative significand dropped bs
    else if dropped = 0 then whole negative significand bytes
    else finish negative significand dropped bytes
  | [] =>
    if dropped = 0 then whole negative significand [] else finish negative significand dropped []

/-- Reads a number from its first digit on, which has to be there. -/
def read (negative : Bool) : List UInt8 → Except Fault (Numeral × List UInt8)
  | [] => .error (.ending .endInValue)
  | b :: bs =>
    if Char.ofUInt8 b = '0' then
      match bs with
      | d :: _ =>
        if isDigit d then .error (.looking .badNumber bs) else readAfterInteger negative 0 0 bs
      | [] => readAfterInteger negative 0 0 []
    else if isDigit b then
      let (significand, dropped, rest) := integerDigits (digitValue b) bs
      readAfterInteger negative significand dropped rest
    else .error (.before .badNumber bs)

/-! ## Writing -/

/-- Digits with a point after the first `n` of them and at least one digit behind it. -/
def pointed (digits : List Char) (n : Nat) : List Char :=
  let fraction := digits.drop n
  digits.take n ++ '.' :: (if fraction = [] then ['0'] else fraction)

/-- A positive magnitude from its digits and the exponent of ten that they are multiplied with. -/
def printDecimal (digits : Nat) (exponent : Int) : List Char :=
  let ds := Number.ofNat digits
  let leading := exponent + ds.length - 1
  if -5 ≤ leading ∧ leading ≤ 15 then
    if leading < 0 then
      '0' :: '.' :: List.replicate (-leading - 1).toNat '0' ++ ds
    else pointed (ds ++ List.replicate exponent.toNat '0') (leading.toNat + 1)
  else
    let mantissa := if ds.length = 1 then ds else pointed ds 1
    let sign := if leading < 0 then '-' else '+'
    mantissa ++ 'e' :: sign :: Number.ofNat leading.natAbs

def printFloat (x : Binary64) : List Char :=
  let magnitude :=
    if x.units = 0 then ['0', '.', '0']
    else
      let (digits, exponent) := Binary64.shortest x.units
      printDecimal digits exponent
  if x.negative then '-' :: magnitude else magnitude

def print : Numeral → List Char
  | integer n => Number.ofInt n
  | float x => printFloat x

end HealthRules.Numeral
