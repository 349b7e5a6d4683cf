import Mathlib
import HealthRules.Json.Numeral
import HealthRules.Proofs.Number.Shortest

/-!
# Significands and powers of ten

A reader rounds the significand and the power of ten and then their product or quotient. What comes
out is a number of the format (`Numeral.representable_of_ofParts?`). It can be too large to be
finite, but not for the shortest decimal of a number (`Numeral.exists_ofParts?_shortest`): only the
three greatest numbers are so close to the end of the format that the three roundings might lead
beyond it, and for these the reader is run.
-/

namespace HealthRules

namespace Number.Binary64

/-- A magnitude that the format has. -/
structure Representable (x : Binary64) : Prop where
  bits : HasSignificantBits x.units
  finite : x.units < overflow

theorem representable_zero (negative : Bool) : Representable ⟨negative, 0⟩ where
  bits := ⟨0, 0, by decide, rfl⟩
  finite := by
    rw [overflow_eq]
    positivity

/-- What an operation is rounded to has the format. -/
theorem representable_of_roundRatio {negative : Bool} {num den : Nat} {x : Binary64}
    (h : (roundRatio num den).map (fun units => (⟨negative, units⟩ : Binary64)) = some x) :
    x.Representable := by
  obtain ⟨units, hunits, rfl⟩ := Option.map_eq_some_iff.mp h
  obtain ⟨hbits, hfinite⟩ := hasSignificantBits_of_roundRatio hunits
  exact ⟨hbits, hfinite⟩

/-- A quotient by one or more is finite. -/
theorem exists_div? {x y : Binary64} (hx : x.Representable) (hy : unitsPerOne ≤ y.units) :
    ∃ z, x.div? y = some z := by
  have hpos : 0 < y.units := Nat.lt_of_lt_of_le unitsPerOne_pos hy
  have hle : x.units * unitsPerOne ≤ y.units * x.units := by
    rw [Nat.mul_comm]
    exact Nat.mul_le_mul_right _ hy
  obtain ⟨units, -, hunits⟩ := roundRatio_le hpos hx.bits hx.finite hle
  exact ⟨_, by rw [div?, hunits, Option.map_some]⟩

/-- The greatest number of the format. -/
def greatest : Nat :=
  (2 ^ 53 - 1) * 2 ^ 971

theorem greatest_lt_two_pow : greatest < 2 ^ 1024 := by
  unfold greatest
  decide +kernel

/-- The greatest number is written in binary as 53 ones with zeros behind. -/
theorem representable_greatest : Representable ⟨false, greatest * unitsPerOne⟩ where
  bits := by
    refine ⟨2 ^ 53 - 1, 971 + 1074, by decide, ?_⟩
    rw [greatest, unitsPerOne_eq, Nat.mul_assoc, Nat.pow_add]
  finite := by
    rw [overflow_eq_mul]
    exact Nat.mul_lt_mul_of_pos_right greatest_lt_two_pow unitsPerOne_pos

-- To unfold one of these as far as possible is to compute a power of a thousand digits.
attribute [local irreducible] unitsPerOne overflow greatest

/-- A product of two whole numbers that is not beyond the greatest number is finite. -/
theorem exists_mul? {a b : Nat} (h : a * b ≤ greatest) (negative negative' : Bool) :
    ∃ z, mul? ⟨negative, a * unitsPerOne⟩ ⟨negative', b * unitsPerOne⟩ = some z := by
  have hle : ∀ u : Nat, a * u * (b * u) * u ≤ u * u * (greatest * u) := by
    intro u
    calc a * u * (b * u) * u = a * b * (u * u * u) := by ring
      _ ≤ greatest * (u * u * u) := Nat.mul_le_mul_right _ h
      _ = u * u * (greatest * u) := by ring
  obtain ⟨units, -, hunits⟩ :=
    roundRatio_le (Nat.mul_pos unitsPerOne_pos unitsPerOne_pos) representable_greatest.bits
      representable_greatest.finite (hle unitsPerOne)
  exact ⟨_, by rw [mul?, hunits, Option.map_some]⟩

/-- Rounding makes a number greater by the 2 ^ 53rd part at most. -/
theorem nearestNat_le (n : Nat) : nearestNat n * 2 ^ 53 ≤ n * (2 ^ 53 + 1) := by
  have herror := (nearestNat_error n).1
  rcases Nat.lt_or_ge n (2 ^ 52) with hlt | hge
  · rw [nearestNat_of_lt (by omega)]
    omega
  · have hmany : 52 ≤ n.log2 := (Nat.le_log2 (by omega)).mpr hge
    have hgap : gap n * 2 ^ 52 ≤ n := by
      rw [gap_eq, ← Nat.pow_add, Nat.sub_add_cancel hmany]
      exact Nat.log2_self_le (by omega)
    calc nearestNat n * 2 ^ 53 = 2 * nearestNat n * 2 ^ 52 := by ring
      _ ≤ (2 * n + gap n) * 2 ^ 52 := Nat.mul_le_mul_right _ herror
      _ = n * 2 ^ 53 + gap n * 2 ^ 52 := by ring
      _ ≤ n * 2 ^ 53 + n := Nat.add_le_add_left hgap _

/-! ## Near the end of the format -/

/-- With 53 significant bits there are only three numbers above a certain one. -/
theorem HasSignificantBits.le_or_eq {units k : Nat} (hbits : HasSignificantBits units)
    (h : units < 2 ^ (53 + k)) :
    units ≤ (2 ^ 53 - 4) * 2 ^ k ∨ units = (2 ^ 53 - 3) * 2 ^ k ∨
      units = (2 ^ 53 - 2) * 2 ^ k ∨ units = (2 ^ 53 - 1) * 2 ^ k := by
  -- with all of its bits in use, the number is a multiple of 2 ^ k
  rcases Nat.lt_or_ge units (2 ^ (52 + k)) with hlt | hge
  · have hpow : 2 ^ (52 + k) ≤ (2 ^ 53 - 4) * 2 ^ k := by
      rw [Nat.pow_add]
      exact Nat.mul_le_mul_right _ (by decide)
    exact .inl (hlt.le.trans hpow)
  · obtain ⟨m, rfl⟩ := hbits.two_pow_dvd hge
    rw [Nat.add_sub_cancel_left, Nat.mul_comm] at h ⊢
    rw [Nat.pow_add] at h
    have hm : m < 2 ^ 53 := Nat.lt_of_mul_lt_mul_right h
    rcases Nat.lt_or_ge (2 ^ 53 - 4) m with hgt | hle
    · have hcases : m = 2 ^ 53 - 3 ∨ m = 2 ^ 53 - 2 ∨ m = 2 ^ 53 - 1 := by omega
      rcases hcases with rfl | rfl | rfl
      · exact .inr (.inl rfl)
      · exact .inr (.inr (.inl rfl))
      · exact .inr (.inr (.inr rfl))
    · exact .inl (Nat.mul_le_mul_right _ hle)

/-- A product that is a good deal below the end of the format stays there when its two factors are
rounded. -/
theorem nearestNat_mul_nearestNat_le {a b : Nat} (h : a * b * 2 ≤ (2 ^ 54 - 7) * 2 ^ 971) :
    nearestNat a * nearestNat b ≤ greatest := by
  have hround : ∀ p : Nat, a * b * 2 ≤ (2 ^ 54 - 7) * p →
      nearestNat a * nearestNat b ≤ (2 ^ 53 - 1) * p := by
    intro p hp
    -- the seven that is taken off leaves room for what the two roundings add
    have hconst : (2 ^ 54 - 7) * ((2 ^ 53 + 1) * (2 ^ 53 + 1)) ≤
        (2 ^ 53 - 1) * (2 ^ 53 * 2 ^ 53 * 2) := by
      decide
    refine Nat.le_of_mul_le_mul_right ?_ (show 0 < 2 ^ 53 * 2 ^ 53 * 2 by decide)
    calc nearestNat a * nearestNat b * (2 ^ 53 * 2 ^ 53 * 2)
        = (nearestNat a * 2 ^ 53) * (nearestNat b * 2 ^ 53) * 2 := by ring
      _ ≤ a * (2 ^ 53 + 1) * (b * (2 ^ 53 + 1)) * 2 :=
          Nat.mul_le_mul_right _ (Nat.mul_le_mul (nearestNat_le a) (nearestNat_le b))
      _ = a * b * 2 * ((2 ^ 53 + 1) * (2 ^ 53 + 1)) := by ring
      _ ≤ (2 ^ 54 - 7) * p * ((2 ^ 53 + 1) * (2 ^ 53 + 1)) := Nat.mul_le_mul_right _ hp
      _ = (2 ^ 54 - 7) * ((2 ^ 53 + 1) * (2 ^ 53 + 1)) * p := by ring
      _ ≤ (2 ^ 53 - 1) * (2 ^ 53 * 2 ^ 53 * 2) * p := Nat.mul_le_mul_right _ hconst
      _ = (2 ^ 53 - 1) * p * (2 ^ 53 * 2 ^ 53 * 2) := by ring
  unfold greatest
  exact hround _ h

/-- A number below the end of the format by a small part of it is rounded to a finite number. -/
theorem nearestNat_lt {n : Nat} (h : n * (2 ^ 53 + 1) < 2 ^ 1024 * 2 ^ 53) :
    nearestNat n < 2 ^ 1024 :=
  Nat.lt_of_mul_lt_mul_right (Nat.lt_of_le_of_lt (nearestNat_le n) h)

end Number.Binary64

namespace Numeral

open Number (Binary64 maxUnsigned64)
open Number.Binary64

attribute [local irreducible] unitsPerOne overflow greatest

/-! ## Powers of ten -/

/-- Every power of ten that the reader knows is below the end of the format, also when rounded. -/
theorem nearestNat_pow_ten_lt {k : Nat} (hk : k ≤ 308) : nearestNat (10 ^ k) < 2 ^ 1024 := by
  have hmax : 10 ^ 308 * (2 ^ 53 + 1) < 2 ^ 1024 * 2 ^ 53 := by
    decide +kernel
  have hpow : ∀ m, k ≤ m → nearestNat (10 ^ k) ≤ nearestNat (10 ^ m) := fun m hm =>
    nearestNat_mono (Nat.pow_le_pow_right (by decide) hm)
  exact Nat.lt_of_le_of_lt (hpow 308 hk) (nearestNat_lt hmax)

/-- So the reader's power of ten is finite: it is the rounded one. -/
theorem tenTo_eq {k : Nat} (hk : k ≤ 308) :
    tenTo k = ⟨false, nearestNat (10 ^ k) * unitsPerOne⟩ := by
  have hdecimal : Binary64.ofDecimal? 1 k =
      (roundRatio (10 ^ k) 1).map fun units => (⟨false, units⟩ : Binary64) := by
    unfold Binary64.ofDecimal?
    rw [if_neg (by decide), if_neg (by omega), if_neg (by omega)]
    show (roundRatio (1 * 10 ^ k) 1).map _ = _
    rw [Nat.one_mul]
  rw [tenTo, hdecimal, roundRatio_one, if_pos (nearestNat_pow_ten_lt hk), Option.map_some,
    Option.getD_some]

theorem unitsPerOne_le_tenTo {k : Nat} (hk : k ≤ 308) : unitsPerOne ≤ (tenTo k).units := by
  have hone : 1 ≤ nearestNat (10 ^ k) := by
    rw [← nearestNat_of_dvd (n := 1) (by decide)]
    exact nearestNat_mono (Nat.pow_pos (by decide))
  rw [tenTo_eq hk]
  exact Nat.le_mul_of_pos_left _ hone

/-! ## Scaling -/

/-- However many steps a scaling takes, the result of each has the format. -/
theorem representable_of_scale? {n : Nat} {x y : Binary64} {e : Int} (hx : x.Representable)
    (h : scale? n x e = some y) : y.Representable := by
  induction n generalizing x e with
  | zero =>
    cases h
    exact hx
  | succ n ih =>
    rw [scale?] at h
    split_ifs at h
    · cases h
      exact hx
    · obtain ⟨z, hz, h⟩ := Option.bind_eq_some_iff.mp h
      exact ih (representable_of_roundRatio hz) h
    · exact representable_of_roundRatio h
    · exact representable_of_roundRatio h

/-- Dividing by powers of ten leads to a finite number, however often. -/
theorem exists_scale?_of_neg (n : Nat) {x : Binary64} {e : Int} (hx : x.Representable)
    (he : e < 0) : ∃ y, scale? n x e = some y := by
  induction n generalizing x e with
  | zero => exact ⟨x, rfl⟩
  | succ n ih =>
    rw [scale?]
    split_ifs
    · exact ⟨x, rfl⟩
    · omega
    · obtain ⟨z, hz⟩ := exists_div? hx (unitsPerOne_le_tenTo (Nat.le_refl 308))
      rw [hz, Option.bind_some]
      exact ih (representable_of_roundRatio hz) (by omega)
    · omega
    · exact exists_div? hx (unitsPerOne_le_tenTo (by omega))

/-- A scaling upwards that takes one step is finite if the product of its rounded factors is. -/
theorem exists_scale?_of_mul_le (n : Nat) {s e : Nat} (he : e ≤ 308)
    (h : nearestNat s * nearestNat (10 ^ e) ≤ greatest) :
    ∃ y, scale? (n + 1) ⟨false, nearestNat s * unitsPerOne⟩ e = some y := by
  rw [scale?]
  split_ifs
  · exact ⟨_, rfl⟩
  · omega
  · omega
  · rw [Int.toNat_natCast, tenTo_eq he]
    exact exists_mul? h false false
  · omega

/-! ## Significand and exponent -/

theorem ofNat?_eq {s : Nat} (hs : s ≤ maxUnsigned64) :
    Binary64.ofNat? s = some ⟨false, nearestNat s * unitsPerOne⟩ :=
  ofNat?_of_lt (k := 64) (Nat.lt_of_le_pred (by decide) hs) (by decide)

/-- A number that is made of a significand and an exponent has the format. -/
theorem representable_of_ofParts? {negative : Bool} {s : Nat} {e : Int} {n : Numeral}
    (h : ofParts? negative s e = some n) : ∃ x : Binary64, n = .float x ∧ x.Representable := by
  obtain ⟨x, hx, rfl⟩ := Option.map_eq_some_iff.mp h
  obtain ⟨y, hy, hx⟩ := Option.bind_eq_some_iff.mp hx
  obtain ⟨hbits, hfinite⟩ := representable_of_scale? (representable_of_roundRatio hy) hx
  exact ⟨_, rfl, hbits, hfinite⟩

/-- A significand of 64 bits is finite, and to divide it does not lead further up. -/
theorem exists_ofParts?_of_neg (negative : Bool) {s : Nat} (hs : s ≤ maxUnsigned64) {e : Int}
    (he : e < 0) : ∃ n, ofParts? negative s e = some n := by
  have hrep : Representable ⟨false, nearestNat s * unitsPerOne⟩ :=
    representable_of_roundRatio (ofNat?_eq hs)
  obtain ⟨y, hy⟩ := exists_scale?_of_neg 4 hrep he
  exact ⟨_, by rw [ofParts?, ofNat?_eq hs, Option.bind_some, hy, Option.map_some]⟩

/-- With an exponent that is not negative, it is enough that the product of the rounded factors is
not beyond the greatest number. -/
theorem exists_ofParts?_of_mul_le (negative : Bool) {s e : Nat} (hs : s ≤ maxUnsigned64)
    (he : e ≤ 308) (h : nearestNat s * nearestNat (10 ^ e) ≤ greatest) :
    ∃ n, ofParts? negative s e = some n := by
  obtain ⟨y, hy⟩ := exists_scale?_of_mul_le 3 he h
  exact ⟨_, by rw [ofParts?, ofNat?_eq hs, Option.bind_some, hy, Option.map_some]⟩

/-! ## The shortest decimal -/

/-- The shortest decimal exceeds its number by half a gap at most, in units. -/
theorem shortest_mul_le {units s e : Nat} (h : units ≠ 0) (hfinite : units < overflow)
    (hshortest : shortest units = (s, (e : Int))) :
    s * 10 ^ e * 2 * unitsPerOne ≤ 2 * units + gap units := by
  have hpos := unitsPerOne_pos'
  have hle := (shortest_bounds h hfinite).1
  rw [hshortest, decimalValue, upperEnd, unitsValue, div_div, le_div_iff₀ (by positivity)] at hle
  dsimp only at hle
  rw [zpow_natCast] at hle
  have hle' : (s : ℚ) * 10 ^ e * 2 * unitsPerOne ≤ (2 * units + gap units : ℕ) := by
    linarith
  exact_mod_cast hle'

theorem exists_ofParts?_zero (negative : Bool) (e : Int) : ∃ n, ofParts? negative 0 e = some n := by
  have hzero : nearestNat 0 * unitsPerOne = 0 := by
    rw [nearestNat_of_dvd (Nat.dvd_zero _), Nat.zero_mul]
  refine ⟨.float ⟨negative, 0⟩, ?_⟩
  rw [ofParts?, ofNat?_eq (Nat.zero_le _), Option.bind_some, hzero, scale?, if_pos rfl,
    Option.map_some]

/-- The shortest decimal of a number that is not one of the three greatest stays away from the end
of the format. -/
theorem exists_ofParts?_of_le (negative : Bool) {units s e : Nat} (hs : s ≤ maxUnsigned64)
    (hle : units ≤ (2 ^ 53 - 4) * (2 ^ 971 * unitsPerOne))
    (hgap : gap units ≤ 2 ^ 971 * unitsPerOne)
    (h : s * 10 ^ e * 2 * unitsPerOne ≤ 2 * units + gap units) :
    ∃ n, ofParts? negative s e = some n := by
  have hstep : ∀ p : Nat, units ≤ (2 ^ 53 - 4) * p → gap units ≤ p →
      2 * units + gap units ≤ (2 ^ 54 - 7) * p := by
    intro p hp hgap
    omega
  have hbound : s * 10 ^ e * 2 ≤ (2 ^ 54 - 7) * 2 ^ 971 := by
    refine Nat.le_of_mul_le_mul_right (Nat.le_trans h ?_) unitsPerOne_pos
    rw [Nat.mul_assoc]
    exact hstep _ hle hgap
  rcases Nat.eq_zero_or_pos s with rfl | hpos
  · exact exists_ofParts?_zero negative e
  · have hexp : e ≤ 308 := by
      have hmax : (2 ^ 54 - 7) * 2 ^ 971 < 10 ^ 309 := by
        decide +kernel
      have hself : 10 ^ e ≤ s * 10 ^ e * 2 := by
        rw [Nat.mul_comm s, Nat.mul_assoc]
        exact Nat.le_mul_of_pos_right _ (by omega)
      have hpow : ∀ m, 10 ^ e < 10 ^ m → e < m := fun m hm =>
        (Nat.pow_lt_pow_iff_right (by decide)).mp hm
      exact Nat.le_of_lt_succ
        (hpow 309 (Nat.lt_of_le_of_lt (Nat.le_trans hself hbound) hmax))
    exact exists_ofParts?_of_mul_le negative hs hexp (nearestNat_mul_nearestNat_le hbound)

/-- The shortest decimal of one of the three greatest numbers, by computation. -/
theorem exists_ofParts?_of_shortest_eq (negative : Bool) {units s e s' : Nat}
    (hshortest : shortest units = (s, (e : Int))) (heq : shortest units = (s', 292))
    (hs : s' ≤ maxUnsigned64) (h : nearestNat s' * nearestNat (10 ^ 292) ≤ greatest) :
    ∃ n, ofParts? negative s e = some n := by
  rw [heq, Prod.mk.injEq] at hshortest
  obtain ⟨rfl, he⟩ := hshortest
  rw [← he]
  exact exists_ofParts?_of_mul_le (e := 292) negative hs (by decide) h

/-- The shortest decimal of a number is read as a finite number. -/
theorem exists_ofParts?_shortest (negative : Bool) {x : Binary64} (h : x.units ≠ 0)
    (hx : x.Representable) {s : Nat} {e : Int} (hshortest : shortest x.units = (s, e)) :
    ∃ n, ofParts? negative s e = some n := by
  have hbounds := shortest_bounds h hx.finite
  rw [hshortest] at hbounds
  rcases Int.lt_or_le e 0 with hneg | hnonneg
  · exact exists_ofParts?_of_neg negative hbounds.2.1 hneg
  obtain ⟨e, rfl⟩ := Int.eq_ofNat_of_zero_le hnonneg
  have hlt : x.units < 2 ^ (53 + 2045) := by
    rw [← overflow_eq]
    exact hx.finite
  have hunit : 2 ^ 971 * unitsPerOne = 2 ^ 2045 := by
    rw [unitsPerOne_eq, ← pow_add]
  rcases hx.bits.le_or_eq hlt with hle | heq | heq | heq
  · rw [← hunit] at hle
    have hgap := gap_le hlt
    rw [← hunit] at hgap
    exact exists_ofParts?_of_le negative hbounds.2.1 hle hgap
      (shortest_mul_le h hx.finite hshortest)
  -- the three greatest numbers
  · have hdecimal : shortest x.units = (17976931348623153, 292) := by
      rw [heq]
      decide +kernel
    exact exists_ofParts?_of_shortest_eq negative hshortest hdecimal (by decide +kernel)
      (by decide +kernel)
  · have hdecimal : shortest x.units = (17976931348623155, 292) := by
      rw [heq]
      decide +kernel
    exact exists_ofParts?_of_shortest_eq negative hshortest hdecimal (by decide +kernel)
      (by decide +kernel)
  · have hdecimal : shortest x.units = (17976931348623157, 292) := by
      rw [heq]
      decide +kernel
    exact exists_ofParts?_of_shortest_eq negative hshortest hdecimal (by decide +kernel)
      (by decide +kernel)

end Numeral
end HealthRules
