import Mathlib
import HealthRules.Proofs.Duration.Literal
import HealthRules.Proofs.Number.Quotient

/-!
# Milliseconds of a duration

A duration of whole milliseconds becomes a binary number in three steps, each of them rounded: the
thousandths of a second beyond the whole seconds, the sum of both, and its product with 1000
(`milliseconds_ofMilliseconds`). The result is exact below one second and for every multiple of 125
(`roundedMilliseconds_exact`), is often not for other numbers, and stays within one millisecond
(`roundedMilliseconds_bounds`).
-/

namespace HealthRules.Duration

open Number.Binary64 hiding zero

/-- A duration of whole milliseconds. -/
def ofMilliseconds (n : Nat) : Duration :=
  ⟨UInt64.ofNat (n / 1000), n % 1000 * 1000000, by omega⟩

/-- Thousandths of a second, rounded, at 62 binary places. -/
def thousandths (m : Nat) : Nat :=
  nearestQuotient (m * 2 ^ 62) 1000

/-- The milliseconds of a duration of `n` milliseconds, at 62 binary places. -/
def roundedMilliseconds (n : Nat) : Nat :=
  nearestNat (nearestNat (n / 1000 * 2 ^ 62 + thousandths (n % 1000)) * 1000)

/-! ## The steps -/

/-- A thousandth is off by its 2 ^ 53rd part at most. -/
theorem thousandths_error (m : Nat) :
    2 ^ 53 * (thousandths m * 1000) ≤ 2 ^ 53 * (m * 2 ^ 62) + m * 2 ^ 62 ∧
      2 ^ 53 * (m * 2 ^ 62) ≤ 2 ^ 53 * (thousandths m * 1000) + m * 2 ^ 62 := by
  rcases Nat.eq_zero_or_pos m with rfl | hm
  · rw [thousandths, Nat.zero_mul, nearestQuotient_zero]
    omega
  · exact nearestQuotient_error (by omega) (by decide)

theorem thousandths_lt {m : Nat} (h : m < 1000) : thousandths m < 2 ^ 63 := by
  have herror := (thousandths_error m).1
  omega

/-- The nanoseconds beyond the whole seconds, as a part of a second. -/
theorem div?_nanoseconds {m : Nat} (h : m < 1000) :
    (whole (m * 1000000)).div? (whole nanosPerSecond) = some (ofPlaces (thousandths m)) := by
  have hterms : (whole (m * 1000000)).div? (whole (1000 * 1000000)) =
      (whole m).div? (whole 1000) :=
    div?_whole_mul_right m 1000 (by decide)
  have hsecond : nanosPerSecond = 1000 * 1000000 := rfl
  rw [hsecond, hterms]
  rcases Nat.eq_zero_or_pos m with rfl | hm
  · decide +kernel
  · exact div?_whole_places (by decide) (by omega) (thousandths_lt h) (by decide)

/-- The binary number of a duration of whole milliseconds. -/
theorem milliseconds_ofMilliseconds {n : Nat} (h : n < 2 ^ 53) :
    (ofMilliseconds n).milliseconds = ofPlaces (roundedMilliseconds n) := by
  have hmod : n % 1000 < 1000 := Nat.mod_lt n (by decide)
  have hseconds : ofNat? (ofMilliseconds n).seconds.toNat = some (whole (n / 1000)) := by
    have hsize : n / 1000 < UInt64.size :=
      Nat.lt_of_lt_of_le (show n / 1000 < 2 ^ 53 by omega) (by decide)
    have hself : (ofMilliseconds n).seconds.toNat = n / 1000 :=
      UInt64.toNat_ofNat_of_lt' hsize
    rw [hself]
    exact ofNat?_whole (by omega)
  have hnanos : ofNat? (ofMilliseconds n).nanoseconds.val = some (whole (n % 1000 * 1000000)) := by
    show ofNat? (n % 1000 * 1000000) = _
    exact ofNat?_whole (by omega)
  have hsecond : ofNat? nanosPerSecond = some (whole nanosPerSecond) :=
    ofNat?_whole (by decide)
  have hthousand : ofNat? 1000 = some (whole 1000) :=
    ofNat?_whole (by decide)
  have hfraction := thousandths_lt hmod
  have hsum := nearestNat_le_two_pow (n := n / 1000 * 2 ^ 62 + thousandths (n % 1000)) (k := 115)
    (by omega)
  rw [milliseconds_eq, hseconds, Option.bind_some, hnanos, Option.bind_some, hsecond,
    Option.bind_some, div?_nanoseconds hmod, Option.bind_some, whole_eq_ofPlaces (n / 1000),
    addMagnitude?_ofPlaces (k := 115) (by omega) (by decide), Option.bind_some, hthousand,
    Option.bind_some, mul?_ofPlaces_whole (k := 126) (by omega) (by decide), Option.getD_some]
  rfl

/-! ## The result -/

/-- Rounding moves a number of milliseconds by less than one. -/
theorem roundedMilliseconds_bounds {n : Nat} (h : n < 2 ^ 51) :
    n * 2 ^ 62 < roundedMilliseconds n + 2 ^ 62 ∧ roundedMilliseconds n < n * 2 ^ 62 + 2 ^ 62 := by
  have hfraction := thousandths_error (n % 1000)
  have hsum := nearestNat_relativeError (n / 1000 * 2 ^ 62 + thousandths (n % 1000))
  have hproduct := nearestNat_relativeError
    (nearestNat (n / 1000 * 2 ^ 62 + thousandths (n % 1000)) * 1000)
  unfold roundedMilliseconds
  omega

/-- Below one second only the product and the thousandths are rounded. -/
theorem roundedMilliseconds_of_lt {n : Nat} (h : n < 1000) :
    roundedMilliseconds n = nearestNat (thousandths n * 1000) := by
  have hbits : HasSignificantBits (thousandths n) := hasSignificantBits_divRoundEven _ _
  rw [roundedMilliseconds, Nat.div_eq_of_lt h, Nat.mod_eq_of_lt h, Nat.zero_mul, Nat.zero_add,
    nearestNat_of_hasSignificantBits hbits]

theorem roundedMilliseconds_two_mul {n : Nat} (hpos : 0 < n) (h : 2 * n < 1000) :
    roundedMilliseconds (2 * n) = 2 * roundedMilliseconds n := by
  have hquot := nearestQuotient_mul_two_pow (a := n * 2 ^ 62) (b := 1000) (by omega) (by decide) 1
  have hdouble : thousandths (2 * n) = thousandths n * 2 ^ 1 := by
    rw [thousandths, thousandths, ← hquot]
    congr 1
    omega
  rw [roundedMilliseconds_of_lt h, roundedMilliseconds_of_lt (by omega), hdouble,
    Nat.mul_right_comm, nearestNat_mul_two_pow]
  omega

/-- In the upper half of a second the last bit of the product is large enough to take up what the
thousandths are off by. -/
theorem roundedMilliseconds_of_gt {n : Nat} (hlow : 512 < n) (hhigh : n < 1000) :
    roundedMilliseconds n = n * 2 ^ 62 := by
  have hgap : gap (n * 2 ^ 62 / 1000) ≤ 2 ^ 9 := gap_le (by omega)
  have hpos : 0 < 1000 * gap (n * 2 ^ 62 / 1000) :=
    Nat.mul_pos (by decide) (Nat.pow_pos (by decide))
  have herror := divRoundEven_error (n * 2 ^ 62) hpos
  have hproduct : thousandths n * 1000 =
      divRoundEven (n * 2 ^ 62) (1000 * gap (n * 2 ^ 62 / 1000)) *
        (1000 * gap (n * 2 ^ 62 / 1000)) := by
    rw [thousandths, nearestQuotient, Nat.mul_assoc, Nat.mul_comm 1000]
  rw [← hproduct] at herror
  -- the product has 72 bits, so that its last of 53 is worth 2 ^ 19
  have hlog : (thousandths n * 1000).log2 = 71 :=
    (Nat.log2_eq_iff (by omega)).mpr ⟨by omega, by omega⟩
  have hpower : 2 ^ 71 ≤ nearestNat (thousandths n * 1000) := by
    rw [← hlog]
    exact (nearestNat_bounds (by omega)).1
  have hdvd : 2 ^ 19 ∣ nearestNat (thousandths n * 1000) :=
    (hasSignificantBits_nearestNat _).two_pow_dvd hpower
  have hclosest := nearestNat_error (thousandths n * 1000)
  rw [gap_eq, hlog] at hclosest
  rw [roundedMilliseconds_of_lt hhigh]
  obtain ⟨q, hq⟩ := hdvd
  omega

theorem roundedMilliseconds_subsecond {n : Nat} (h : n < 1000) :
    roundedMilliseconds n = n * 2 ^ 62 := by
  rcases Nat.eq_zero_or_pos n with rfl | hpos
  · decide +kernel
  rcases Nat.lt_or_ge n 500 with hlower | hupper
  · -- the bits are those of twice the number
    have hdouble := roundedMilliseconds_subsecond (n := 2 * n) (by omega)
    rw [roundedMilliseconds_two_mul hpos (by omega)] at hdouble
    omega
  rcases Nat.lt_or_ge 512 n with hgt | hle
  · exact roundedMilliseconds_of_gt hgt h
  · -- for the few numbers in between, the product is too small for the lemma
    have hnear : ∀ i < 13, roundedMilliseconds (500 + i) = (500 + i) * 2 ^ 62 := by
      decide +kernel
    have hn := hnear (n - 500) (by omega)
    rwa [Nat.add_sub_cancel' hupper] at hn
termination_by 1000 - n

theorem thousandths_eighths : ∀ q < 8, thousandths (125 * q) = q * 2 ^ 59 := by
  decide +kernel

/-- Below a second, or at a multiple of an eighth of one, nothing is rounded. -/
theorem roundedMilliseconds_exact {n : Nat} (h : n < 2 ^ 53) (hn : n < 1000 ∨ 125 ∣ n) :
    roundedMilliseconds n = n * 2 ^ 62 := by
  rcases hn with hlt | ⟨q, rfl⟩
  · exact roundedMilliseconds_subsecond hlt
  · -- an eighth of a second has three places only
    have hfraction : thousandths (125 * q % 1000) = q % 8 * 2 ^ 59 := by
      rw [show 125 * q % 1000 = 125 * (q % 8) by omega]
      exact thousandths_eighths (q % 8) (Nat.mod_lt q (by decide))
    have hsum : 125 * q / 1000 * 2 ^ 62 + q % 8 * 2 ^ 59 = q * 2 ^ 59 := by
      omega
    have hproduct : q * 2 ^ 59 * 1000 = 125 * q * 2 ^ 62 := by
      ring
    rw [roundedMilliseconds, hfraction, hsum, nearestNat_mul_two_pow,
      nearestNat_of_lt (show q < 2 ^ 53 by omega), hproduct, nearestNat_mul_two_pow,
      nearestNat_of_lt h]

end HealthRules.Duration
