/-!
# Binary numbers of 64 bits

Every finite number of the 64-bit binary format is a whole number of units of 2 ^ -1074, so a
number is held as its sign and its count of units. An exact result is rounded once, to the nearest
number with 53 significant bits, a tie to the one whose last bit is zero (`roundRatio`). A result
that rounds to 2 ^ 1024 or more is no finite number, and the operations say so by `none`.
-/

namespace HealthRules.Number

/-- A finite number of the 64-bit binary format; zero has a sign. -/
structure Binary64 where
  negative : Bool
  /-- How many times 2 ^ -1074 the magnitude is. -/
  units : Nat
deriving DecidableEq, Repr

namespace Binary64

/-- Units in one. -/
def unitsPerOne : Nat := Nat.pow 2 1074

/-- The first count of units that is too large. -/
def overflow : Nat := Nat.pow 2 2098

/-- The quotient rounded to the nearest whole number, a tie to the even one. -/
def divRoundEven (a b : Nat) : Nat :=
  let q := a / b
  let r := a % b
  if 2 * r < b then q else if b < 2 * r then q + 1 else q + q % 2

/-- The distance of neighbouring numbers around a count of units: numbers have 53 bits. -/
def gap (units : Nat) : Nat :=
  Nat.pow 2 (units.log2 - 52)

/-- The magnitude nearest to the quotient, in units; `none` if that is not finite. -/
def roundRatio (num den : Nat) : Option Nat :=
  let scaled := num * unitsPerOne
  let g := gap (scaled / den)
  let units := divRoundEven scaled (den * g) * g
  if units < overflow then some units else none

/-- The number in units, with its sign. -/
def scaled (x : Binary64) : Int :=
  if x.negative then -(x.units : Int) else x.units

def zero : Binary64 := ⟨false, 0⟩

/-- A natural number, rounded. -/
def ofNat? (n : Nat) : Option Binary64 :=
  (roundRatio n 1).map fun units => ⟨false, units⟩

/-- The decimal number `digits * 10 ^ exponent`, rounded. Exponents beyond the range of the
format are told apart before any power is taken. -/
def ofDecimal? (digits : Nat) (exponent : Int) : Option Binary64 :=
  if digits = 0 then some zero
  else if 400 < exponent then none
  else if exponent + (digits.log2 + 1 : Nat) < -400 then some zero
  else
    let magnitude := match exponent with
      | .ofNat e => roundRatio (digits * Nat.pow 10 e) 1
      | .negSucc e => roundRatio digits (Nat.pow 10 (e + 1))
    magnitude.map fun units => ⟨false, units⟩

/-- The product, rounded. -/
def mul? (x y : Binary64) : Option Binary64 :=
  (roundRatio (x.units * y.units) (unitsPerOne * unitsPerOne)).map fun units =>
    ⟨x.negative != y.negative, units⟩

/-- The quotient by a number other than zero, rounded. -/
def div? (x y : Binary64) : Option Binary64 :=
  (roundRatio x.units y.units).map fun units => ⟨x.negative != y.negative, units⟩

/-- The sum of two numbers that are not negative, rounded. -/
def addMagnitude? (x y : Binary64) : Option Binary64 :=
  (roundRatio (x.units + y.units) unitsPerOne).map fun units => ⟨false, units⟩

/-- The order of two numbers; the two zeros are equal. -/
def cmp (x y : Binary64) : Ordering :=
  compare x.scaled y.scaled

end Binary64
end HealthRules.Number
