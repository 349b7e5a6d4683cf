import Mathlib
import HealthRules.Proofs.Number.Rounding

/-!
# Arithmetic of whole numbers

A sum or a product of two whole numbers is rounded once, like the whole number that it is
(`addMagnitude?_whole`, `mul?_whole`), and so is a quotient without a remainder (`div?_whole`). As
long as the numbers stay below 2 ^ 53 nothing is rounded at all (`ofNat?_whole`).
-/

namespace HealthRules.Number.Binary64

/-- A natural number as it is. -/
def whole (n : Nat) : Binary64 :=
  ⟨false, n * unitsPerOne⟩

theorem scaled_whole (n : Nat) : (whole n).scaled = (n : Int) * unitsPerOne :=
  Nat.cast_mul n unitsPerOne

/-- A number of 53 bits is not rounded. -/
theorem ofNat?_whole {n : Nat} (h : n < 2 ^ 53) : ofNat? n = some (whole n) := by
  rw [ofNat?_of_lt h (by decide), nearestNat_of_lt h, whole]

theorem addMagnitude?_whole (n m : Nat) : (whole n).addMagnitude? (whole m) = ofNat? (n + m) := by
  have hsum : n * unitsPerOne + m * unitsPerOne = (n + m) * unitsPerOne :=
    (Nat.add_mul n m unitsPerOne).symm
  have hround := roundRatio_mul_right (n + m) 1 unitsPerOne_pos
  rw [Nat.one_mul] at hround
  rw [addMagnitude?, whole, whole, hsum, hround, ofNat?]

theorem mul?_whole (n m : Nat) : (whole n).mul? (whole m) = ofNat? (n * m) := by
  have hproduct : n * unitsPerOne * (m * unitsPerOne) = n * m * (unitsPerOne * unitsPerOne) :=
    Nat.mul_mul_mul_comm n unitsPerOne m unitsPerOne
  have hround := roundRatio_mul_right (n * m) 1 (Nat.mul_pos unitsPerOne_pos unitsPerOne_pos)
  rw [Nat.one_mul] at hround
  rw [mul?, whole, whole, hproduct, hround, ofNat?]
  rfl

theorem div?_whole (n : Nat) {m : Nat} (hm : 0 < m) :
    (whole (n * m)).div? (whole m) = ofNat? n := by
  have hround := roundRatio_mul_right n 1 (Nat.mul_pos hm unitsPerOne_pos)
  rw [Nat.one_mul, ← Nat.mul_assoc] at hround
  rw [div?, whole, whole, hround, ofNat?]
  rfl

end HealthRules.Number.Binary64
