import Mathlib
import HealthRules.Proofs.Number.Digits

/-!
# Whole numbers in binary

A whole number is rounded to 53 significant bits when it becomes a binary number
(`binary64?_ofInt`). `Binary64.nearest` is the rounded number: it has these bits
(`hasSignificantBits_nearestNat`), and no number that has them is closer (`nearestNat_closest`).
Rounding keeps the order of two numbers (`nearest_mono`) but may make them equal, and below 2 ^ 64
it moves a number by 1024 at most (`nearest_error`). A number below 2 ^ 53 is not rounded, and no
other number is rounded to it (`nearest_of_lt`, `eq_of_nearest_eq`).
-/

namespace HealthRules.Number.Binary64

/-! ## Rounding a quotient -/

/-- A quotient is rounded down or up, not further. -/
theorem divRoundEven_bounds (a b : Nat) :
    a / b ≤ divRoundEven a b ∧ divRoundEven a b ≤ a / b + 1 := by
  unfold divRoundEven
  dsimp only
  split
  · omega
  · split <;> omega

/-- A rounded quotient is off by half at most. -/
theorem divRoundEven_error (a : Nat) {b : Nat} (hb : 0 < b) :
    2 * (divRoundEven a b * b) ≤ 2 * a + b ∧ 2 * a ≤ 2 * (divRoundEven a b * b) + b := by
  have hdiv : a = a / b * b + a % b := (Nat.div_add_mod' a b).symm
  have hmod : a % b < b := Nat.mod_lt a hb
  have hup : (a / b + 1) * b = a / b * b + b := Nat.succ_mul (a / b) b
  unfold divRoundEven
  dsimp only
  split
  · omega
  · split
    · omega
    · -- half way between two whole numbers either is as good
      rcases Nat.mod_two_eq_zero_or_one (a / b) with hpar | hpar
      · rw [hpar, Nat.add_zero]
        omega
      · rw [hpar]
        omega

/-- No whole number is closer to the quotient. -/
theorem divRoundEven_closest (a : Nat) {b : Nat} (hb : 0 < b) (q : Nat) :
    |((divRoundEven a b * b : Nat) : Int) - a| ≤ |((q * b : Nat) : Int) - a| := by
  obtain ⟨hlow, hhigh⟩ := divRoundEven_error a hb
  rw [abs_eq_max_neg, abs_eq_max_neg]
  rcases lt_trichotomy q (divRoundEven a b) with hlt | rfl | hgt
  · have hstep : (q + 1) * b ≤ divRoundEven a b * b := Nat.mul_le_mul_right b hlt
    rw [Nat.succ_mul] at hstep
    omega
  · exact le_rfl
  · have hstep : (divRoundEven a b + 1) * b ≤ q * b := Nat.mul_le_mul_right b hgt
    rw [Nat.succ_mul] at hstep
    omega

/-- Rounding keeps the order of quotients with one divisor. -/
theorem divRoundEven_mono {a a' : Nat} (h : a ≤ a') (b : Nat) :
    divRoundEven a b ≤ divRoundEven a' b := by
  have hq : a / b ≤ a' / b := Nat.div_le_div_right h
  rcases Nat.lt_or_ge (a / b) (a' / b) with hlt | hge
  · have hle := (divRoundEven_bounds a b).2
    have hge := (divRoundEven_bounds a' b).1
    omega
  · -- with one quotient the remainders decide
    have heq : a' / b = a / b := Nat.le_antisymm hge hq
    have hr : a % b ≤ a' % b := by
      have hdiv := Nat.div_add_mod' a b
      have hdiv' := Nat.div_add_mod' a' b
      rw [heq] at hdiv'
      omega
    unfold divRoundEven
    dsimp only
    rw [heq]
    split_ifs <;> omega

/-- Only the quotient matters, not its terms. -/
theorem divRoundEven_mul_right (a b : Nat) {c : Nat} (hc : 0 < c) :
    divRoundEven (a * c) (b * c) = divRoundEven a b := by
  have hless : 2 * (a % b * c) < b * c ↔ 2 * (a % b) < b := by
    rw [← Nat.mul_assoc, Nat.mul_lt_mul_right hc]
  have hmore : b * c < 2 * (a % b * c) ↔ b < 2 * (a % b) := by
    rw [← Nat.mul_assoc, Nat.mul_lt_mul_right hc]
  unfold divRoundEven
  simp only [Nat.mul_div_mul_right a b hc, Nat.mul_mod_mul_right, hless, hmore]

/-- Nothing is rounded without a remainder. -/
theorem divRoundEven_mul_of_dvd {a b : Nat} (h : b ∣ a) : divRoundEven a b * b = a := by
  rcases Nat.eq_zero_or_pos b with rfl | hb
  · rw [Nat.mul_zero, Nat.eq_zero_of_zero_dvd h]
  · unfold divRoundEven
    dsimp only
    rw [Nat.mod_eq_zero_of_dvd h, if_pos (by omega), Nat.div_mul_cancel h]

/-! ## Rounding a natural number -/

theorem unitsPerOne_eq : unitsPerOne = 2 ^ 1074 := by
  unfold unitsPerOne
  -- the exponent is hidden, so that nothing tries to evaluate the power
  generalize 1074 = e
  rfl

theorem overflow_eq : overflow = 2 ^ 2098 := by
  unfold overflow
  generalize 2098 = e
  rfl

/-- The first number that is too large is 2 ^ 1024, counted in units. -/
theorem overflow_eq_mul : overflow = 2 ^ 1024 * unitsPerOne := by
  rw [overflow_eq, unitsPerOne_eq, ← pow_add]

theorem unitsPerOne_pos : 0 < unitsPerOne := by
  rw [unitsPerOne_eq]
  exact pow_pos (by decide) 1074

theorem gap_eq (n : Nat) : gap n = 2 ^ (n.log2 - 52) := rfl

/-- Numbers of `53 + k` bits lie on a grid that is not wider than `2 ^ k`. -/
theorem gap_le {n k : Nat} (h : n < 2 ^ (53 + k)) : gap n ≤ 2 ^ k := by
  rw [gap_eq]
  refine Nat.pow_le_pow_right (by decide) ?_
  rcases Nat.eq_zero_or_pos n with rfl | hpos
  · rw [Nat.log2_zero, Nat.zero_sub]
    exact Nat.zero_le k
  · have hlog := (Nat.log2_lt (by omega)).mpr h
    omega

/-- Below 2 ^ 53 every whole number is on the grid. -/
theorem gap_eq_one {n : Nat} (h : n < 2 ^ 53) : gap n = 1 :=
  Nat.le_antisymm (gap_le (k := 0) h) (Nat.pow_pos (by decide))

/-- The natural number of 53 significant bits that is nearest, a tie to the one whose last bit is
zero. -/
def nearestNat (n : Nat) : Nat :=
  divRoundEven n (gap n) * gap n

/-- A number on its own grid is not rounded. -/
theorem nearestNat_of_dvd {n : Nat} (h : gap n ∣ n) : nearestNat n = n :=
  divRoundEven_mul_of_dvd h

/-- A number of 53 bits is not rounded. -/
theorem nearestNat_of_lt {n : Nat} (h : n < 2 ^ 53) : nearestNat n = n := by
  refine nearestNat_of_dvd ?_
  rw [gap_eq_one h]
  exact Nat.one_dvd n

/-- The number is kept between the powers of two around it. -/
theorem nearestNat_bounds {n : Nat} (hn : n ≠ 0) :
    2 ^ n.log2 ≤ nearestNat n ∧ nearestNat n ≤ 2 ^ (n.log2 + 1) := by
  have hlow : gap n ∣ 2 ^ n.log2 := Nat.pow_dvd_pow 2 (by omega)
  have hhigh : gap n ∣ 2 ^ (n.log2 + 1) := Nat.pow_dvd_pow 2 (by omega)
  unfold nearestNat
  constructor
  · rw [← divRoundEven_mul_of_dvd hlow]
    exact Nat.mul_le_mul_right _ (divRoundEven_mono (Nat.log2_self_le hn) _)
  · rw [← divRoundEven_mul_of_dvd hhigh]
    exact Nat.mul_le_mul_right _ (divRoundEven_mono (Nat.le_of_lt Nat.lt_log2_self) _)

theorem log2_mono {n m : Nat} (h : n ≤ m) : n.log2 ≤ m.log2 := by
  rcases Nat.eq_zero_or_pos n with rfl | hn
  · exact Nat.zero_le _
  · exact (Nat.le_log2 (by omega)).mpr (Nat.le_trans (Nat.log2_self_le (by omega)) h)

/-- Rounding keeps the order, also where the grid becomes wider. -/
theorem nearestNat_mono {n m : Nat} (h : n ≤ m) : nearestNat n ≤ nearestNat m := by
  rcases Nat.eq_zero_or_pos n with rfl | hn
  · rw [nearestNat_of_dvd (Nat.dvd_zero _)]
    exact Nat.zero_le _
  · have hlog : n.log2 ≤ m.log2 := log2_mono h
    rcases Nat.lt_or_ge n.log2 m.log2 with hlt | hge
    · -- a power of two stands between the two numbers
      calc nearestNat n ≤ 2 ^ (n.log2 + 1) := (nearestNat_bounds (by omega)).2
        _ ≤ 2 ^ m.log2 := Nat.pow_le_pow_right (by decide) hlt
        _ ≤ nearestNat m := (nearestNat_bounds (by omega)).1
    · have hgap : gap m = gap n := by rw [gap_eq, gap_eq, Nat.le_antisymm hge hlog]
      unfold nearestNat
      rw [hgap]
      exact Nat.mul_le_mul_right _ (divRoundEven_mono h _)

/-- A number below a power of two is not rounded beyond it. -/
theorem nearestNat_le_two_pow {n k : Nat} (h : n < 2 ^ k) : nearestNat n ≤ 2 ^ k := by
  have hself : nearestNat (2 ^ k) = 2 ^ k := by
    refine nearestNat_of_dvd ?_
    rw [gap_eq, Nat.log2_two_pow]
    exact Nat.pow_dvd_pow 2 (Nat.sub_le k 52)
  rw [← hself]
  exact nearestNat_mono h.le

/-- Nothing is rounded below 2 ^ 53 that was not there. -/
theorem nearestNat_lt_iff {n : Nat} : nearestNat n < 2 ^ 53 ↔ n < 2 ^ 53 := by
  constructor
  · intro h
    rw [← not_le]
    intro hle
    have hmono := nearestNat_mono hle
    have hself : nearestNat (2 ^ 53) = 2 ^ 53 := nearestNat_of_dvd (by decide)
    omega
  · intro h
    rwa [nearestNat_of_lt h]

/-- Rounding moves a number by half a step of its grid at most. -/
theorem nearestNat_error (n : Nat) :
    2 * nearestNat n ≤ 2 * n + gap n ∧ 2 * n ≤ 2 * nearestNat n + gap n :=
  divRoundEven_error n (Nat.pow_pos (by decide))

/-- The number has 53 significant bits, perhaps with zeros behind them. -/
def HasSignificantBits (n : Nat) : Prop :=
  ∃ bits zeros, bits < 2 ^ 53 ∧ n = bits * 2 ^ zeros

/-- A rounded quotient has 53 significant bits. -/
theorem hasSignificantBits_divRoundEven (a den : Nat) :
    HasSignificantBits (divRoundEven a (den * gap (a / den)) * gap (a / den)) := by
  have hquot : a / (den * gap (a / den)) < 2 ^ 53 := by
    rw [← Nat.div_div_eq_div_mul, gap_eq, Nat.div_lt_iff_lt_mul (by positivity), ← pow_add]
    exact Nat.lt_of_lt_of_le Nat.lt_log2_self (Nat.pow_le_pow_right (by decide) (by omega))
  have hbits := (divRoundEven_bounds a (den * gap (a / den))).2
  rcases Nat.lt_or_eq_of_le (Nat.le_trans hbits hquot) with hlt | heq
  · exact ⟨_, (a / den).log2 - 52, hlt, rfl⟩
  · -- all bits were ones and the number was rounded up
    refine ⟨1, 53 + ((a / den).log2 - 52), by decide, ?_⟩
    rw [heq, Nat.pow_add, Nat.one_mul, gap_eq]

/-- What rounding gives is a number that needs no rounding. -/
theorem hasSignificantBits_nearestNat (n : Nat) : HasSignificantBits (nearestNat n) := by
  have hbits := hasSignificantBits_divRoundEven n 1
  rwa [Nat.div_one, Nat.one_mul] at hbits

/-- Below the first 53 bits of the number there are zeros only. -/
theorem HasSignificantBits.two_pow_dvd {x k : Nat} (h : HasSignificantBits x) (hx : 2 ^ k ≤ x) :
    2 ^ (k - 52) ∣ x := by
  obtain ⟨bits, zeros, hbits, rfl⟩ := h
  have hzeros : k - 52 ≤ zeros := by
    have hlt : 2 ^ k < 2 ^ (53 + zeros) := by
      rw [Nat.pow_add]
      exact Nat.lt_of_le_of_lt hx (Nat.mul_lt_mul_of_pos_right hbits (by positivity))
    have := (Nat.pow_lt_pow_iff_right (by decide)).mp hlt
    omega
  exact Nat.dvd_trans (Nat.pow_dvd_pow 2 hzeros) (Nat.dvd_mul_left _ bits)

/-- No number of 53 significant bits is closer. -/
theorem nearestNat_closest (n : Nat) {x : Nat} (h : HasSignificantBits x) :
    |(nearestNat n : Int) - n| ≤ |(x : Int) - n| := by
  rcases Nat.eq_zero_or_pos n with rfl | hn
  · rw [nearestNat_of_dvd (Nat.dvd_zero _), sub_self, abs_zero]
    exact abs_nonneg _
  have hclosest : ∀ y, gap n ∣ y → |(nearestNat n : Int) - n| ≤ |(y : Int) - n| := by
    intro y hy
    rw [← Nat.div_mul_cancel hy]
    exact divRoundEven_closest n (Nat.pow_pos (by decide)) _
  have hself : 2 ^ n.log2 ≤ n := Nat.log2_self_le (by omega)
  rcases Nat.lt_or_ge x (2 ^ n.log2) with hlt | hge
  · -- the power of two below `n` is closer than anything below it
    have hpower := hclosest (2 ^ n.log2) (Nat.pow_dvd_pow 2 (by omega))
    refine le_trans hpower ?_
    rw [abs_eq_max_neg, abs_eq_max_neg]
    omega
  · exact hclosest x (h.two_pow_dvd hge)

/-- Rounding keeps its 53 bits wherever they stand. -/
theorem nearestNat_mul_two_pow (n k : Nat) : nearestNat (n * 2 ^ k) = nearestNat n * 2 ^ k := by
  rcases Nat.eq_zero_or_pos n with rfl | hn
  · rw [Nat.zero_mul, nearestNat_of_dvd (Nat.dvd_zero _), Nat.zero_mul]
  · have hlog : (n * 2 ^ k).log2 = n.log2 + k := by
      rw [Nat.log2_eq_iff (by positivity), Nat.add_right_comm, Nat.pow_add, Nat.pow_add]
      exact ⟨Nat.mul_le_mul_right _ (Nat.log2_self_le (by omega)),
        Nat.mul_lt_mul_of_pos_right Nat.lt_log2_self (by positivity)⟩
    rcases Nat.lt_or_ge n (2 ^ 52) with hlt | hge
    · -- a number of few bits is not rounded, with or without zeros behind it
      have hfew : n.log2 < 52 := (Nat.log2_lt (by omega)).mpr hlt
      have hzeros : gap (n * 2 ^ k) ∣ n * 2 ^ k := by
        rw [gap_eq, hlog]
        exact Nat.dvd_trans (Nat.pow_dvd_pow 2 (by omega)) (Nat.dvd_mul_left _ n)
      rw [nearestNat_of_dvd hzeros, nearestNat_of_lt (by omega)]
    · have hmany : 52 ≤ n.log2 := (Nat.le_log2 (by omega)).mpr hge
      have hgap : gap (n * 2 ^ k) = gap n * 2 ^ k := by
        rw [gap_eq, gap_eq, hlog, ← Nat.pow_add, Nat.sub_add_comm hmany]
      unfold nearestNat
      rw [hgap, divRoundEven_mul_right n (gap n) (by positivity), Nat.mul_assoc]

/-- A whole number becomes the nearest one, unless this has too many bits. -/
theorem roundRatio_one (n : Nat) :
    roundRatio n 1 =
      if nearestNat n < 2 ^ 1024 then some (nearestNat n * unitsPerOne) else none := by
  have hscaled : nearestNat (n * unitsPerOne) = nearestNat n * unitsPerOne := by
    rw [unitsPerOne_eq, nearestNat_mul_two_pow]
  have hround : roundRatio n 1 = if nearestNat (n * unitsPerOne) < overflow then
      some (nearestNat (n * unitsPerOne)) else none := by
    unfold roundRatio nearestNat
    simp only [Nat.div_one, Nat.one_mul]
  rw [hround, hscaled, overflow_eq_mul]
  exact if_congr (Nat.mul_lt_mul_right unitsPerOne_pos) rfl rfl

/-- The quotient is rounded, whatever its terms are. -/
theorem roundRatio_mul_right (num den : Nat) {c : Nat} (hc : 0 < c) :
    roundRatio (num * c) (den * c) = roundRatio num den := by
  have hscaled : num * c * unitsPerOne = num * unitsPerOne * c := Nat.mul_right_comm _ _ _
  have hquot : num * unitsPerOne * c / (den * c) = num * unitsPerOne / den :=
    Nat.mul_div_mul_right _ _ hc
  unfold roundRatio
  dsimp only
  rw [hscaled, hquot, Nat.mul_right_comm den c, divRoundEven_mul_right _ _ hc]

/-! ## Bounds on a rounded quotient -/

/-- A rounded quotient is a finite number of 53 significant bits. -/
theorem hasSignificantBits_of_roundRatio {num den units : Nat}
    (h : roundRatio num den = some units) : HasSignificantBits units ∧ units < overflow := by
  unfold roundRatio at h
  dsimp only at h
  split_ifs at h with hfinite
  rw [Option.some.injEq] at h
  subst h
  exact ⟨hasSignificantBits_divRoundEven _ _, hfinite⟩

/-- A quotient that is not beyond a number is not rounded beyond it. -/
theorem roundRatio_le {num den bound : Nat} (hden : 0 < den) (hbits : HasSignificantBits bound)
    (hfinite : bound < overflow) (h : num * unitsPerOne ≤ den * bound) :
    ∃ units ≤ bound, roundRatio num den = some units := by
  -- rounding is monotone and leaves multiples of the gap alone
  have hround : ∀ b, gap (num * unitsPerOne / den) ∣ b → num * unitsPerOne ≤ den * b →
      divRoundEven (num * unitsPerOne) (den * gap (num * unitsPerOne / den)) *
        gap (num * unitsPerOne / den) ≤ b := by
    intro b hdvd hle
    have hgap : 0 < den * gap (num * unitsPerOne / den) :=
      Nat.mul_pos hden (Nat.pow_pos (by decide))
    have hself := divRoundEven_mul_of_dvd (Nat.mul_dvd_mul_left den hdvd)
    have hmono := divRoundEven_mono hle (den * gap (num * unitsPerOne / den))
    refine Nat.le_of_mul_le_mul_left ?_ hden
    calc den * (divRoundEven (num * unitsPerOne) _ * gap (num * unitsPerOne / den))
        = divRoundEven (num * unitsPerOne) _ * (den * gap (num * unitsPerOne / den)) := by ring
      _ ≤ divRoundEven (den * b) _ * (den * gap (num * unitsPerOne / den)) :=
          Nat.mul_le_mul_right _ hmono
      _ = den * b := hself
  have hquot : num * unitsPerOne / den ≤ bound := Nat.div_le_of_le_mul h
  have hbound : divRoundEven (num * unitsPerOne) (den * gap (num * unitsPerOne / den)) *
      gap (num * unitsPerOne / den) ≤ bound := by
    rcases Nat.eq_zero_or_pos bound with rfl | hpos
    · exact hround 0 (Nat.dvd_zero _) h
    have hself : 2 ^ bound.log2 ≤ bound := Nat.log2_self_le (by omega)
    rcases Nat.lt_or_eq_of_le (log2_mono hquot) with hlt | heq
    · -- a power of two stands between the quotient and the bound
      refine Nat.le_trans (hround (2 ^ bound.log2) (Nat.pow_dvd_pow 2 (by omega)) ?_) hself
      have hpow : num * unitsPerOne / den < 2 ^ bound.log2 :=
        Nat.lt_of_lt_of_le Nat.lt_log2_self (Nat.pow_le_pow_right (by decide) hlt)
      have hlt' := (Nat.div_lt_iff_lt_mul hden).mp hpow
      rw [Nat.mul_comm den]
      exact Nat.le_of_lt hlt'
    · refine hround bound ?_ h
      rw [gap_eq, heq]
      exact hbits.two_pow_dvd hself
  refine ⟨_, hbound, ?_⟩
  unfold roundRatio
  exact if_pos (Nat.lt_of_le_of_lt hbound hfinite)

/-! ## Rounding a whole number -/

/-- The whole number of 53 significant bits that is nearest, a tie to the one whose last bit is
zero. -/
def nearest (n : Int) : Int :=
  if n < 0 then -(nearestNat n.natAbs : Int) else nearestNat n.natAbs

/-- Rounding keeps the order of whole numbers, those below zero included. -/
theorem nearest_mono {n m : Int} (h : n ≤ m) : nearest n ≤ nearest m := by
  unfold nearest
  rcases lt_or_ge n 0 with hn | hn
  · rcases lt_or_ge m 0 with hm | hm
    · have hle := nearestNat_mono (show m.natAbs ≤ n.natAbs by omega)
      rw [if_pos hn, if_pos hm]
      omega
    · rw [if_pos hn, if_neg (by omega)]
      omega
  · have hle := nearestNat_mono (show n.natAbs ≤ m.natAbs by omega)
    rw [if_neg (by omega), if_neg (by omega)]
    omega

/-- The sign does not take part in rounding. -/
theorem natAbs_nearest (n : Int) : (nearest n).natAbs = nearestNat n.natAbs := by
  unfold nearest
  split <;> omega

/-- A whole number of 53 bits is not rounded. -/
theorem nearest_of_lt {n : Int} (h : n.natAbs < 2 ^ 53) : nearest n = n := by
  unfold nearest
  rw [nearestNat_of_lt h]
  split <;> omega

/-- No two numbers are rounded to one of 53 bits. -/
theorem eq_of_nearest_eq {n m : Int} (hm : m.natAbs < 2 ^ 53) (h : nearest n = nearest m) :
    n = m := by
  rw [nearest_of_lt hm] at h
  have hn : n.natAbs < 2 ^ 53 := by
    rw [← nearestNat_lt_iff, ← natAbs_nearest, h]
    exact hm
  rw [← h, nearest_of_lt hn]

/-- Among the numbers of 64 bits the grid is 2048 wide at most, so rounding moves by half of this.
-/
theorem nearest_error {n : Int} (h : n.natAbs < 2 ^ 64) :
    nearest n ≤ n + 1024 ∧ n ≤ nearest n + 1024 := by
  have hgap := gap_le (k := 11) h
  obtain ⟨hlow, hhigh⟩ := nearestNat_error n.natAbs
  unfold nearest
  split <;> omega

/-- Two numbers that stay apart stay in their order. -/
theorem compare_nearest {n m : Int} (h : nearest n = nearest m → n = m) :
    compare (nearest n) (nearest m) = compare n m := by
  rcases lt_trichotomy n m with hlt | rfl | hgt
  · have hle := nearest_mono hlt.le
    have hne : nearest n ≠ nearest m := fun heq => absurd (h heq) hlt.ne
    rw [compare_lt_iff_lt.mpr hlt, compare_lt_iff_lt.mpr (lt_of_le_of_ne hle hne)]
  · rw [compare_eq_iff_eq.mpr rfl, compare_eq_iff_eq.mpr rfl]
  · have hle := nearest_mono hgt.le
    have hne : nearest m ≠ nearest n := fun heq => absurd (h heq.symm) hgt.ne'
    rw [compare_gt_iff_gt.mpr hgt, compare_gt_iff_gt.mpr (lt_of_le_of_ne hle hne)]

/-- Multiples of one number are ordered as their factors. -/
theorem cmp_of_multiple {x y : Binary64} {n m : Int} {u : Nat} (hu : 0 < u)
    (hx : x.scaled = n * u) (hy : y.scaled = m * u) : x.cmp y = compare n m := by
  have hpos : (0 : Int) < u := Int.natCast_pos.mpr hu
  unfold cmp
  rw [hx, hy]
  rcases lt_trichotomy n m with hlt | rfl | hgt
  · rw [compare_lt_iff_lt.mpr hlt, compare_lt_iff_lt.mpr (Int.mul_lt_mul_of_pos_right hlt hpos)]
  · rw [compare_eq_iff_eq.mpr rfl, compare_eq_iff_eq.mpr rfl]
  · rw [compare_gt_iff_gt.mpr hgt, compare_gt_iff_gt.mpr (Int.mul_lt_mul_of_pos_right hgt hpos)]

/-- Binary numbers that are whole are ordered as whole numbers. -/
theorem cmp_of_scaled {x y : Binary64} {n m : Int} (hx : x.scaled = n * unitsPerOne)
    (hy : y.scaled = m * unitsPerOne) : x.cmp y = compare n m :=
  cmp_of_multiple unitsPerOne_pos hx hy

/-! ## Reading a whole number -/

variable {k : Nat}

/-- A natural number of less than 1024 bits is rounded to a finite number. -/
theorem roundRatio_one_of_lt {n : Nat} (h : n < 2 ^ k) (hk : k < 1024) :
    roundRatio n 1 = some (nearestNat n * unitsPerOne) := by
  have hpow : ∀ m, k < m → nearestNat n < 2 ^ m := fun m hm =>
    Nat.lt_of_le_of_lt (nearestNat_le_two_pow h) (Nat.pow_lt_pow_right (by decide) hm)
  rw [roundRatio_one, if_pos (hpow 1024 hk)]

theorem ofNat?_of_lt {n : Nat} (h : n < 2 ^ k) (hk : k < 1024) :
    ofNat? n = some ⟨false, nearestNat n * unitsPerOne⟩ := by
  rw [ofNat?, roundRatio_one_of_lt h hk, Option.map_some]

/-- A decimal number without places is rounded as the natural number that it is. -/
theorem ofDecimal?_whole {n : Nat} (h : n < 2 ^ k) (hk : k < 1024) :
    ofDecimal? n 0 = some ⟨false, nearestNat n * unitsPerOne⟩ := by
  unfold ofDecimal?
  split
  · next hzero =>
    rw [hzero, nearestNat_of_dvd (Nat.dvd_zero _), Nat.zero_mul]
    rfl
  · have hone : n * Nat.pow 10 0 = n := Nat.mul_one n
    rw [if_neg (by decide), if_neg (by omega)]
    show (roundRatio (n * Nat.pow 10 0) 1).map _ = _
    rw [hone, roundRatio_one_of_lt h hk, Option.map_some]

end Binary64

open Binary64 in
/-- The text of a whole number that is not too large reads as the number nearest to it. -/
theorem binary64?_ofInt {n : Int} {k : Nat} (h : n.natAbs < 2 ^ k) (hk : k < 1024) :
    ∃ x, binary64? (ofInt n) = some x ∧ x.scaled = nearest n * unitsPerOne := by
  refine ⟨⟨decide (n < 0), nearestNat n.natAbs * unitsPerOne⟩, ?_, ?_⟩
  · rw [binary64?, Decimal.ofText?_ofInt, Option.bind_some, Decimal.toBinary64?,
      ofDecimal?_whole h hk, Option.map_some]
  · unfold scaled nearest
    simp only [decide_eq_true_eq]
    split
    · rw [Nat.cast_mul, Int.neg_mul]
    · rw [Nat.cast_mul]

/-- A whole number of 64 bits reads as a binary number, however it is written. -/
theorem exists_binary64?_of_signed64? {cs : List Char} {n : Int} (h : signed64? cs = some n) :
    ∃ x, binary64? cs = some x := by
  unfold signed64? at h
  cases hsign : splitSign cs with
  | mk negative digits =>
    rw [hsign] at h
    obtain ⟨m, hm, hn⟩ := Option.bind_eq_some_iff.mp h
    have hsmall : m < 2 ^ 64 := by
      have hpow : Nat.pow 2 63 = 2 ^ 63 := rfl
      split_ifs at hn with hnegative hle hlt <;> omega
    have hread : Decimal.ofText? cs = some ⟨negative, m, 0⟩ := by
      unfold Decimal.ofText?
      rw [hsign]
      exact Decimal.magnitude?_of_natural? hm
    rw [binary64?, hread, Option.bind_some, Decimal.toBinary64?,
      Binary64.ofDecimal?_whole hsmall (by decide), Option.map_some]
    exact ⟨_, rfl⟩

end HealthRules.Number
