import HealthRules.Number.Binary64
import HealthRules.Number.Digits

/-!
# Decimal numbers in a text

A decimal number has an optional sign, digits with an optional point among them, at least one
digit, and an optional exponent with a sign of its own and at least one digit. `Decimal.ofText?`
reads the exact value, `Decimal.toBinary64?` rounds it once.
-/

namespace HealthRules.Number

/-- The number `digits * 10 ^ exponent`, negative if so marked. -/
structure Decimal where
  negative : Bool
  digits : Nat
  exponent : Int
deriving DecidableEq, Repr

namespace Decimal

/-- The exponent that follows the digits of a number: nothing, or `e` with a whole number. -/
def exponent? : List Char → Option Int
  | [] => some 0
  | c :: cs =>
    if c = 'e' ∨ c = 'E' then
      let (negative, digits) := splitSign cs
      (natural? digits).map fun n => if negative then -(n : Int) else n
    else none

/-- The number that a text writes without a sign: digits, a point with digits after it, an
exponent. -/
def magnitude? (negative : Bool) (cs : List Char) : Option Decimal :=
  let whole := cs.takeWhile Char.isDigit
  let rest := cs.dropWhile Char.isDigit
  let (fraction, rest) := match rest with
    | '.' :: rest => (rest.takeWhile Char.isDigit, rest.dropWhile Char.isDigit)
    | _ => ([], rest)
  let digits := whole ++ fraction
  if digits = [] then none
  else (exponent? rest).map fun e =>
    ⟨negative, Nat.ofDigitChars 10 digits 0, e - fraction.length⟩

/-- The number that a text writes. -/
def ofText? (cs : List Char) : Option Decimal :=
  let (negative, rest) := splitSign cs
  magnitude? negative rest

/-- The nearest number of the 64-bit binary format, if it is finite. -/
def toBinary64? (d : Decimal) : Option Binary64 :=
  (Binary64.ofDecimal? d.digits d.exponent).map fun x => ⟨d.negative, x.units⟩

end Decimal

/-- The finite number that a text writes, rounded to the 64-bit binary format. -/
def binary64? (cs : List Char) : Option Binary64 :=
  (Decimal.ofText? cs).bind Decimal.toBinary64?

end HealthRules.Number
