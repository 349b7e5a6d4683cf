import Mathlib
import HealthRules.Proofs.Number.Arithmetic

/-!
# Rounded quotients

`Binary64.nearestQuotient` is the number of 53 significant bits to which a quotient is rounded. It
is the same at every scale from 53 bits on (`nearestQuotient_mul_two_pow`), so that an operation
can be followed in numbers of some places behind the point instead of units. What rounding adds or
takes off is at most the 2 ^ 53rd part (`nearestQuotient_error`, `nearestNat_relativeError`).
-/

namespace HealthRules.Number.Binary64

/-- The number of 53 significant bits that is nearest to a quotient with as many bits before the
point. -/
def nearestQuotient (a b : Nat) : Nat :=
  divRoundEven a (b * gap (a / b)) * gap (a / b)

theorem nearestQuotient_one (n : Nat) : nearestQuotient n 1 = nearestNat n := by
  rw [nearestQuotient, nearestNat, Nat.div_one, Nat.one_mul]

theorem nearestQuotient_zero (b : Nat) : nearestQuotient 0 b = 0 := by
  simp [nearestQuotient, divRoundEven]

/-- Only the quotient counts, and not its terms. -/
theorem nearestQuotient_mul_right (a b : Nat) {c : Nat} (hc : 0 < c) :
    nearestQuotient (a * c) (b * c) = nearestQuotient a b := by
  rw [nearestQuotient, nearestQuotient, Nat.mul_div_mul_right a b hc, Nat.mul_right_comm b c,
    divRoundEven_mul_right _ _ hc]

section Large

variable {a b : Nat} (h : 2 ^ 52 * b ≤ a) (hb : 0 < b)

include h hb

theorem quotient_ne_zero : a / b ≠ 0 := by
  have hquot : 2 ^ 52 ≤ a / b := (Nat.le_div_iff_mul_le hb).mpr h
  omega

theorem le_log2_quotient : 52 ≤ (a / b).log2 :=
  (Nat.le_log2 (quotient_ne_zero h hb)).mpr ((Nat.le_div_iff_mul_le hb).mpr h)

/-- A quotient gets as many bits longer as its dividend does. -/
theorem log2_quotient_mul_two_pow (k : Nat) : (a * 2 ^ k / b).log2 = (a / b).log2 + k := by
  have hne := quotient_ne_zero h hb
  have hlow : 2 ^ (a / b).log2 * b ≤ a :=
    (Nat.le_div_iff_mul_le hb).mp (Nat.log2_self_le hne)
  have hhigh : a < 2 ^ ((a / b).log2 + 1) * b :=
    (Nat.div_lt_iff_lt_mul hb).mp Nat.lt_log2_self
  have hlow' : 2 ^ ((a / b).log2 + k) ≤ a * 2 ^ k / b := by
    rw [Nat.le_div_iff_mul_le hb, Nat.pow_add, Nat.mul_right_comm]
    exact Nat.mul_le_mul_right _ hlow
  have hhigh' : a * 2 ^ k / b < 2 ^ ((a / b).log2 + k + 1) := by
    rw [Nat.div_lt_iff_lt_mul hb, Nat.add_right_comm, Nat.pow_add _ _ k, Nat.mul_right_comm]
    exact Nat.mul_lt_mul_of_pos_right hhigh (Nat.pow_pos (by decide))
  have hpos : 0 < a * 2 ^ k / b := Nat.lt_of_lt_of_le (Nat.pow_pos (by decide)) hlow'
  exact (Nat.log2_eq_iff hpos.ne').mpr ⟨hlow', hhigh'⟩

/-- The last of 53 bits is the 2 ^ 52nd part at most. -/
theorem two_pow_mul_gap_le : 2 ^ 52 * (b * gap (a / b)) ≤ a := by
  have hlog := le_log2_quotient h hb
  have hpow : 2 ^ 52 * gap (a / b) = 2 ^ (a / b).log2 := by
    rw [gap_eq, ← Nat.pow_add, Nat.add_sub_cancel' hlog]
  calc 2 ^ 52 * (b * gap (a / b)) = b * (2 ^ 52 * gap (a / b)) := Nat.mul_left_comm _ _ _
    _ = b * 2 ^ (a / b).log2 := by rw [hpow]
    _ ≤ b * (a / b) := Nat.mul_le_mul_left b (Nat.log2_self_le (quotient_ne_zero h hb))
    _ ≤ a := Nat.mul_div_le a b

/-- A quotient of 53 bits keeps them with zeros behind. -/
theorem nearestQuotient_mul_two_pow (k : Nat) :
    nearestQuotient (a * 2 ^ k) b = nearestQuotient a b * 2 ^ k := by
  have hgap : gap (a * 2 ^ k / b) = gap (a / b) * 2 ^ k := by
    rw [gap_eq, gap_eq, log2_quotient_mul_two_pow h hb, ← Nat.pow_add,
      Nat.sub_add_comm (le_log2_quotient h hb)]
  rw [nearestQuotient, nearestQuotient, hgap, ← Nat.mul_assoc, ← Nat.mul_assoc,
    divRoundEven_mul_right _ _ (Nat.pow_pos (by decide))]

/-- Rounding moves a quotient by its 2 ^ 53rd part at most. -/
theorem nearestQuotient_error :
    2 ^ 53 * (nearestQuotient a b * b) ≤ 2 ^ 53 * a + a ∧
      2 ^ 53 * a ≤ 2 ^ 53 * (nearestQuotient a b * b) + a := by
  have hgap := two_pow_mul_gap_le h hb
  have hpos : 0 < b * gap (a / b) := Nat.mul_pos hb (Nat.pow_pos (by decide))
  have hproduct : nearestQuotient a b * b =
      divRoundEven a (b * gap (a / b)) * (b * gap (a / b)) := by
    rw [nearestQuotient, Nat.mul_assoc, Nat.mul_comm b]
  rw [hproduct]
  generalize b * gap (a / b) = step at hgap hpos
  obtain ⟨hup, hdown⟩ := divRoundEven_error a hpos
  omega

end Large

/-- Rounding moves a natural number by its 2 ^ 53rd part at most: it is a quotient by one, and below
2 ^ 52 it is not rounded. -/
theorem nearestNat_relativeError (n : Nat) :
    2 ^ 53 * nearestNat n ≤ 2 ^ 53 * n + n ∧ 2 ^ 53 * n ≤ 2 ^ 53 * nearestNat n + n := by
  rcases Nat.lt_or_ge n (2 ^ 52) with hlt | hge
  · rw [nearestNat_of_lt (by omega)]
    omega
  · have herror := nearestQuotient_error (b := 1) (by omega) Nat.one_pos
    rwa [nearestQuotient_one, Nat.mul_one] at herror

/-- A number of 53 significant bits is not rounded. -/
theorem nearestNat_of_hasSignificantBits {n : Nat} (h : HasSignificantBits n) :
    nearestNat n = n := by
  have hclosest := nearestNat_closest n h
  rw [sub_self, abs_zero, abs_nonpos_iff, sub_eq_zero] at hclosest
  exact Int.natCast_inj.mp hclosest

/-! ## Operations on units -/

/-- A quotient is rounded in units, and is infinite from the end of the format on. -/
theorem roundRatio_eq (num den : Nat) : roundRatio num den =
    if nearestQuotient (num * unitsPerOne) den < overflow then
      some (nearestQuotient (num * unitsPerOne) den) else none := rfl

/-- A number of units is rounded like the natural number of them. -/
theorem roundRatio_unitsPerOne (units : Nat) : roundRatio units unitsPerOne =
    if nearestNat units < overflow then some (nearestNat units) else none := by
  have hquot : nearestQuotient (units * unitsPerOne) unitsPerOne = nearestNat units := by
    have hscale := nearestQuotient_mul_right units 1 unitsPerOne_pos
    rwa [Nat.one_mul, nearestQuotient_one] at hscale
  rw [roundRatio_eq, hquot]

/-! ## Operations at 62 binary places -/

/-- Units in 1 / 2 ^ 62. -/
def unitsPerPlace : Nat := Nat.pow 2 1012

theorem unitsPerPlace_eq : unitsPerPlace = 2 ^ 1012 := by
  unfold unitsPerPlace
  generalize 1012 = e
  rfl

theorem unitsPerPlace_pos : 0 < unitsPerPlace := by
  rw [unitsPerPlace_eq]
  exact pow_pos (by decide) 1012

theorem unitsPerOne_eq_mul : unitsPerOne = 2 ^ 62 * unitsPerPlace := by
  rw [unitsPerOne_eq, unitsPerPlace_eq, ← Nat.pow_add]

/-- The number `x / 2 ^ 62`. -/
def ofPlaces (x : Nat) : Binary64 :=
  ⟨false, x * unitsPerPlace⟩

/-- Numbers at this many places are far from the end of the format. -/
theorem lt_overflow_of_places {x k : Nat} (h : x ≤ 2 ^ k) (hk : k < 1086) :
    x * unitsPerPlace < overflow := by
  have hoverflow : overflow = 2 ^ 1086 * unitsPerPlace := by
    rw [overflow_eq, unitsPerPlace_eq, ← Nat.pow_add]
  have hpow : ∀ e, k < e → x < 2 ^ e := fun e he =>
    Nat.lt_of_le_of_lt h (Nat.pow_lt_pow_right (by decide) he)
  rw [hoverflow]
  exact Nat.mul_lt_mul_of_pos_right (hpow 1086 hk) unitsPerPlace_pos

variable {x y n m k : Nat}

theorem whole_eq_ofPlaces (n : Nat) : whole n = ofPlaces (n * 2 ^ 62) := by
  rw [whole, ofPlaces, unitsPerOne_eq_mul, Nat.mul_assoc]

/-- Rounding in units is rounding at this many places, since the units below a place are zeros. -/
theorem roundRatio_places (h : x < 2 ^ k) (hk : k < 1086) :
    roundRatio (x * unitsPerPlace) unitsPerOne = some (nearestNat x * unitsPerPlace) := by
  have hround : nearestNat (x * unitsPerPlace) = nearestNat x * unitsPerPlace := by
    rw [unitsPerPlace_eq, nearestNat_mul_two_pow]
  rw [roundRatio_unitsPerOne, hround, if_pos (lt_overflow_of_places (nearestNat_le_two_pow h) hk)]

/-- A sum at 62 places is the rounded sum of the places. -/
theorem addMagnitude?_ofPlaces (h : x + y < 2 ^ k) (hk : k < 1086) :
    (ofPlaces x).addMagnitude? (ofPlaces y) = some (ofPlaces (nearestNat (x + y))) := by
  rw [addMagnitude?, ofPlaces, ofPlaces, ← Nat.add_mul, roundRatio_places h hk]
  rfl

/-- A product with a whole number is the rounded product of the places. -/
theorem mul?_ofPlaces_whole (h : x * n < 2 ^ k) (hk : k < 1086) :
    (ofPlaces x).mul? (whole n) = some (ofPlaces (nearestNat (x * n))) := by
  have hproduct : x * unitsPerPlace * (n * unitsPerOne) = x * n * unitsPerPlace * unitsPerOne := by
    rw [← Nat.mul_assoc, Nat.mul_right_comm x]
  rw [mul?, ofPlaces, whole, hproduct, roundRatio_mul_right _ _ unitsPerOne_pos,
    roundRatio_places h hk]
  rfl

/-- Whole numbers are divided as their multiples are. -/
theorem div?_whole_mul_right (n m : Nat) {c : Nat} (hc : 0 < c) :
    (whole (n * c)).div? (whole (m * c)) = (whole n).div? (whole m) := by
  simp only [div?, whole, roundRatio_mul_right _ _ unitsPerOne_pos, roundRatio_mul_right n m hc]

/-- A quotient of whole numbers that is at least the 1024th part of one. -/
theorem div?_whole_places (hm : 0 < m) (h : 2 ^ 52 * m ≤ n * 2 ^ 62)
    (hlt : nearestQuotient (n * 2 ^ 62) m < 2 ^ k) (hk : k < 1086) :
    (whole n).div? (whole m) = some (ofPlaces (nearestQuotient (n * 2 ^ 62) m)) := by
  have hround : nearestQuotient (n * unitsPerOne) m =
      nearestQuotient (n * 2 ^ 62) m * unitsPerPlace := by
    rw [unitsPerOne_eq_mul, unitsPerPlace_eq, ← Nat.mul_assoc, nearestQuotient_mul_two_pow h hm]
  rw [div?, whole, whole, roundRatio_mul_right n m unitsPerOne_pos, roundRatio_eq, hround,
    if_pos (lt_overflow_of_places hlt.le hk)]
  rfl

/-- A whole number and a number of 62 places are ordered at this many places. -/
theorem cmp_ofPlaces {a : Binary64} {i : Int} (h : a.scaled = i * unitsPerOne) (x : Nat) :
    a.cmp (ofPlaces x) = compare (i * 2 ^ 62) (x : Int) := by
  have hleft : a.scaled = i * 2 ^ 62 * unitsPerPlace := by
    rw [h, unitsPerOne_eq_mul, Nat.cast_mul, ← Int.mul_assoc]
    rfl
  exact cmp_of_multiple unitsPerPlace_pos hleft (Nat.cast_mul x unitsPerPlace)

end HealthRules.Number.Binary64
