import HealthRules.Number.Binary64
import HealthRules.Number.Digits

/-!
# The shortest decimal of a binary number

A finite number is written with the fewest digits that only it rounds to; of those the nearest to
the number, and of two equally near the one with the even last digit. `shortest` looks at the
decimal grids with 1, 2, … 17 digits: on each, only the two neighbours of the number can lie in
the interval of what rounds to it.
-/

namespace HealthRules.Number.Binary64

/-- The ends of what rounds to a count of units, in quarters of a unit. Below a power of two the
neighbour is half as far. -/
def quarters (units : Nat) : Nat × Nat :=
  let g := gap units
  let below := if units = Nat.pow 2 52 * g ∧ 1 < g then g else 2 * g
  (4 * units - below, 4 * units + 2 * g)

/-- Whether `digits * 10 ^ exponent` rounds to a count of units: an end counts if the number's
last bit is zero. -/
def roundsTo (units digits : Nat) (exponent : Int) : Bool :=
  let (low, high) := quarters units
  let (num, den) := match exponent with
    | .ofNat e => (digits * Nat.pow 10 e * unitsPerOne * 4, 1)
    | .negSucc e => (digits * unitsPerOne * 4, Nat.pow 10 (e + 1))
  if (units / gap units) % 2 = 0 then low * den ≤ num && num ≤ high * den
  else low * den < num && num < high * den

/-- The neighbours on the grid of multiples of `10 ^ exponent`, the nearer first. -/
def neighbours (units : Nat) (exponent : Int) : Nat × Nat :=
  let (num, den) := match exponent with
    | .ofNat e => (units, unitsPerOne * Nat.pow 10 e)
    | .negSucc e => (units * Nat.pow 10 (e + 1), unitsPerOne)
  let q := num / den
  if divRoundEven num den = q then (q, q + 1) else (q + 1, q)

/-- The digits and the exponent on the first grid, from the coarsest, that holds a decimal which
rounds to the number. -/
def search (units : Nat) : Nat → Int → Option (Nat × Int)
  | 0, _ => none
  | n + 1, exponent =>
    let (near, far) := neighbours units exponent
    if roundsTo units near exponent then some (near, exponent)
    else if roundsTo units far exponent then some (far, exponent)
    else search units n (exponent - 1)

/-- Removes zeros at the end of the digits into the exponent. -/
def stripZeros : Nat → Nat × Int → Nat × Int
  | 0, d => d
  | n + 1, (digits, exponent) =>
    if digits ≠ 0 ∧ digits % 10 = 0 then stripZeros n (digits / 10, exponent + 1)
    else (digits, exponent)

/-- The exponent of the leading decimal digit of a count of units, or one more. -/
def leading (units : Nat) : Int :=
  if unitsPerOne ≤ units then ((ofNat (units / unitsPerOne)).length : Int)
  else -((ofNat (unitsPerOne / units)).length : Int) + 1

/-- The shortest decimal of a magnitude: its digits, the last of them not zero, and the exponent
of ten that they are multiplied with. -/
def shortest (units : Nat) : Nat × Int :=
  if units = 0 then (0, 0)
  else stripZeros 20 ((search units 20 (leading units)).getD (0, 0))

end HealthRules.Number.Binary64
