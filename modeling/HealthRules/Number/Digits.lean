/-!
# Whole numbers in decimal

`natural?` reads one or more ASCII digits, leading zeros allowed; `unsigned64?` and `signed64?`
allow a sign in front and keep to the range of 64 bits. `ofNat` and `ofInt` write the fewest
digits, and `natural?_ofNat` says that they are read back.
-/

namespace HealthRules.Number

/-- The greatest unsigned number of 64 bits. -/
def maxUnsigned64 : Nat := Nat.pow 2 64 - 1

/-- The number that one or more digits write. -/
def natural? (cs : List Char) : Option Nat :=
  if cs ≠ [] ∧ cs.all Char.isDigit then some (Nat.ofDigitChars 10 cs 0) else none

/-- A sign in front: whether it is a minus, and the text after it. A text without a sign counts as
positive. -/
def splitSign : List Char → Bool × List Char
  | '+' :: cs => (false, cs)
  | '-' :: cs => (true, cs)
  | cs => (false, cs)

/-- An unsigned number of 64 bits, with an optional plus in front. -/
def unsigned64? (cs : List Char) : Option Nat :=
  let digits := match cs with
    | '+' :: rest => rest
    | _ => cs
  (natural? digits).filter (· ≤ maxUnsigned64)

/-- A signed number of 64 bits, with an optional sign in front. -/
def signed64? (cs : List Char) : Option Int :=
  let (negative, digits) := splitSign cs
  (natural? digits).bind fun n =>
    if negative then
      if n ≤ Nat.pow 2 63 then some (-(n : Int)) else none
    else
      if n < Nat.pow 2 63 then some (n : Int) else none

/-- The fewest digits of a natural number. -/
def ofNat (n : Nat) : List Char :=
  Nat.toDigits 10 n

/-- The fewest digits of a whole number, after a minus if it is negative. -/
def ofInt : Int → List Char
  | .ofNat n => ofNat n
  | .negSucc n => '-' :: ofNat (n + 1)

theorem natural?_eq_some_iff {cs : List Char} {n : Nat} :
    natural? cs = some n ↔
      cs ≠ [] ∧ (∀ c ∈ cs, c.isDigit = true) ∧ Nat.ofDigitChars 10 cs 0 = n := by
  rw [natural?, Option.ite_none_right_eq_some, Option.some.injEq, List.all_eq_true, and_assoc]

theorem natural?_ofNat (n : Nat) : natural? (ofNat n) = some n :=
  natural?_eq_some_iff.mpr ⟨Nat.toDigits_ne_nil,
    fun _ hc => Nat.isDigit_of_mem_toDigits (by decide) (by decide) hc,
    Nat.ofDigitChars_toDigits (by decide) (by decide)⟩

/-- Exactly `width` digits: the last ones of the number, with zeros in front. -/
def padded (width n : Nat) : List Char :=
  let digits := ofNat n
  List.replicate (width - digits.length) '0' ++ digits

end HealthRules.Number
