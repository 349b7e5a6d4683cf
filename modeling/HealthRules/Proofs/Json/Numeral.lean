import Mathlib
import HealthRules.Proofs.Json.Decimal
import HealthRules.Proofs.Json.Scaling

/-!
# Reading numbers back

A number that a reader can give (`Numeral.Sound`) is read back from its text, in front of anything
that does not continue a number (`Numeral.read_print`). A whole number comes back as itself. Another
number comes back as some number, since its shortest decimal is never too large for the reader; it
may be a neighbour, which the reader's own rounding decides.
-/

namespace HealthRules

/-- What a JSON number can hold whole. -/
def Json.InRange (n : Int) : Prop :=
  -2 ^ 63 ≤ n ∧ n < 2 ^ 64

namespace Numeral

open Number (Binary64 maxUnsigned64 ofNat)
open Text.Utf8 (encode)

/-! ## The text of a number -/

-- By an equation of functions: with arguments, its check would look into the number.
attribute [local irreducible] ofParts? in
theorem finish_eq (negative : Bool) (significand : Nat) (exponent : Int) (rest : List UInt8) :
    finish negative significand exponent rest =
      match ofParts? negative significand exponent with
      | some n => .ok (n, rest)
      | none => .error (.before .numberOutOfRange rest) := by
  have heq : finish = fun negative significand exponent rest =>
      match ofParts? negative significand exponent with
      | some n => .ok (n, rest)
      | none => .error (.before .numberOutOfRange rest) := rfl
  exact congrFun (congrFun (congrFun (congrFun heq negative) significand) exponent) rest

/-- The numbers that a reader can give. -/
inductive Sound : Numeral → Prop
  | integer {n : Int} (h : Json.InRange n) : Sound (.integer n)
  | float {x : Binary64} (h : x.Representable) : Sound (.float x)

/-- Whether the text of a number begins with a minus. -/
def isNegative : Numeral → Bool
  | .integer n => n < 0
  | .float x => x.negative

/-- The text of a number without its minus. -/
def magnitude : Numeral → List Char
  | .integer n => ofNat n.natAbs
  | .float x => printDecimal (Binary64.shortest x.units).1 (Binary64.shortest x.units).2

/-- A number is printed as its magnitude behind a minus, which a negative zero has as well. -/
theorem print_eq (n : Numeral) :
    n.print = (if n.isNegative then ['-'] else []) ++ n.magnitude := by
  cases n with
  | integer n =>
    rw [print, Number.ofInt_eq, isNegative, magnitude]
    simp only [decide_eq_true_eq]
  | float x =>
    have hzero : x.units = 0 → ['0', '.', '0'] =
        printDecimal (Binary64.shortest x.units).1 (Binary64.shortest x.units).2 := by
      intro h
      rw [h]
      decide
    have hmagnitude : (if x.units = 0 then ['0', '.', '0']
        else printDecimal (Binary64.shortest x.units).1 (Binary64.shortest x.units).2) =
          magnitude (.float x) := ite_eq_right_iff.mpr hzero
    rw [← hmagnitude]
    show printFloat x = (if x.negative then ['-'] else []) ++ _
    unfold printFloat
    cases x.negative <;> rfl

/-- The number that is read from the text of a number. -/
def reread (n : Numeral) : Numeral :=
  match read n.isNegative (encode n.magnitude) with
  | .ok (m, _) => m
  | .error _ => n

/-- The magnitude of an integer in range becomes this integer again, behind the sign it had. -/
theorem whole_natAbs {n : Int} (h : Json.InRange n) (rest : List UInt8) :
    whole (decide (n < 0)) n.natAbs rest = .ok (.integer n, rest) := by
  have hmin : Nat.pow 2 63 = 2 ^ 63 := rfl
  obtain ⟨hlow, -⟩ := h
  by_cases hneg : n < 0
  · have habs : -(n.natAbs : Int) = n := by omega
    rw [decide_eq_true hneg, whole, if_neg (by decide), if_neg (by omega), habs]
  · have habs : (n.natAbs : Int) = n := by omega
    rw [decide_eq_false hneg, whole, if_pos (by decide), habs]

/-- An integer in range is read back as itself, whatever stands behind it. -/
theorem read_integer {n : Int} (h : Json.InRange n) {rest : List UInt8} (hrest : Ends rest) :
    read (isNegative (.integer n)) (encode (magnitude (.integer n)) ++ rest) =
      .ok (.integer n, rest) := by
  have hmax : maxUnsigned64 = 2 ^ 64 - 1 := rfl
  have hle : n.natAbs ≤ maxUnsigned64 := by
    obtain ⟨hlow, hhigh⟩ := h
    omega
  rw [isNegative, magnitude, read_ofNat _ hle hrest, whole_natAbs h]

/-- The shortest decimal of a number of the format is within the format, zero included. -/
theorem exists_ofParts?_shortest_units (negative : Bool) {x : Binary64} (hx : x.Representable) :
    ∃ m, ofParts? negative (Binary64.shortest x.units).1 (Binary64.shortest x.units).2 =
      some m := by
  by_cases hzero : x.units = 0
  · rw [hzero]
    exact exists_ofParts?_zero negative 0
  · exact exists_ofParts?_shortest negative hzero hx rfl

/-- The shortest decimal of a number is read as some number, whatever stands behind it. -/
theorem exists_read_float {x : Binary64} (hx : x.Representable) :
    ∃ m, ∀ rest, Ends rest →
      read x.negative (encode (magnitude (.float x)) ++ rest) = .ok (m, rest) := by
  have hbounds : (Binary64.shortest x.units).1 ≤ maxUnsigned64 ∧
      -400 < (Binary64.shortest x.units).2 ∧ (Binary64.shortest x.units).2 < 400 ∧
        ((Binary64.shortest x.units).1 ≠ 0 ∨ (Binary64.shortest x.units).2 = 0) := by
    by_cases hzero : x.units = 0
    · rw [hzero]
      exact ⟨Nat.zero_le _, by decide, by decide, .inr rfl⟩
    · obtain ⟨-, hdigits, hlow, hhigh⟩ := Binary64.shortest_bounds hzero hx.finite
      exact ⟨hdigits, hlow, hhigh, Binary64.shortest_zero hzero⟩
  obtain ⟨hdigits, hlow, hhigh, hzero⟩ := hbounds
  obtain ⟨s, e, hs, hparts, hread⟩ := read_printDecimal hdigits hlow hhigh hzero
  -- either the reader divides, which stays finite, or it has the shortest decimal itself
  have hfinite : ∃ m, ofParts? x.negative s e = some m := by
    rcases hparts with hneg | ⟨rfl, rfl⟩
    · exact exists_ofParts?_of_neg x.negative hs hneg
    · exact exists_ofParts?_shortest_units x.negative hx
  obtain ⟨m, hm⟩ := hfinite
  refine ⟨m, ?_⟩
  intro rest h
  rw [magnitude, hread x.negative rest h, finish_eq, hm]

/-- A number is read back from its text. -/
theorem read_print {n : Numeral} (hn : n.Sound) {rest : List UInt8} (h : Ends rest) :
    read n.isNegative (encode n.magnitude ++ rest) = .ok (n.reread, rest) := by
  have hsome : ∃ m, ∀ rest, Ends rest →
      read n.isNegative (encode n.magnitude ++ rest) = .ok (m, rest) := by
    cases hn with
    | integer hn => exact ⟨_, fun rest h => read_integer hn h⟩
    | float hx => exact exists_read_float hx
  obtain ⟨m, hm⟩ := hsome
  have hreread : n.reread = m := by
    have hend := hm [] trivial
    rw [List.append_nil] at hend
    rw [reread, hend]
  rw [hm rest h, hreread]

/-- Read back from its text, an integer in range is unchanged. -/
theorem reread_integer {n : Int} (h : Json.InRange n) : reread (.integer n) = .integer n := by
  have hend : Ends [] := trivial
  have hread := read_integer h hend
  rw [read_print (.integer h) hend] at hread
  exact congrArg Prod.fst (Except.ok.inj hread)

/-- A number that is read begins with a digit. -/
theorem exists_digit_of_read {negative : Bool} {bytes : List UInt8} {r : Numeral × List UInt8}
    (h : read negative bytes = .ok r) : ∃ b bs, bytes = b :: bs ∧ isDigit b = true := by
  cases bytes with
  | nil => cases h
  | cons b bs =>
    refine ⟨b, bs, rfl, ?_⟩
    rw [read_cons] at h
    split_ifs at h with hzero hdigit
    · rw [isDigit, hzero]
      rfl
    · exact hdigit

/-! ## What a reader gives -/

theorem le_of_push? {n digit s : Nat} (h : push? n digit = some s) : s ≤ maxUnsigned64 := by
  obtain ⟨hle, heq⟩ := Option.ite_none_right_eq_some.mp h
  rw [← Option.some.inj heq]
  exact hle

/-- The significand stays within 64 bits. -/
theorem integerDigits_le {n : Nat} (hn : n ≤ maxUnsigned64) (bytes : List UInt8) :
    (integerDigits n bytes).1 ≤ maxUnsigned64 := by
  induction bytes generalizing n with
  | nil => exact hn
  | cons b bs ih =>
    rw [integerDigits_cons]
    split
    · cases hpush : push? n (digitValue b) with
      | none => exact hn
      | some s => exact ih (le_of_push? hpush)
    · exact hn

variable {negative : Bool} {s : Nat} {e : Int} {bytes rest : List UInt8} {n : Numeral}

theorem ofParts?_of_finish (h : finish negative s e bytes = .ok (n, rest)) :
    ofParts? negative s e = some n := by
  rw [finish_eq] at h
  generalize ofParts? negative s e = parts at h ⊢
  cases parts with
  | none => cases h
  | some m =>
    cases h
    rfl

/-! A number with a point, an exponent or digits that do not fit is never whole. -/

/-- A binary number of the format. -/
inductive IsBinary : Numeral → Prop
  | float {x : Binary64} (h : x.Representable) : IsBinary (.float x)

theorem IsBinary.sound (h : n.IsBinary) : n.Sound := by
  cases h with
  | float h => exact .float h

/-- A number that is made of a significand and an exponent has the format. -/
theorem isBinary_of_finish (h : finish negative s e bytes = .ok (n, rest)) : n.IsBinary := by
  obtain ⟨x, rfl, hx⟩ := representable_of_ofParts? (ofParts?_of_finish h)
  exact .float hx

theorem eq_of_ite_error {ε α : Type} {p : Prop} [Decidable p] {fault : ε} {a b : α}
    (h : (if p then .error fault else .ok a) = Except.ok b) : a = b := by
  split_ifs at h
  exact Except.ok.inj h

/-- With an exponent a number has the format. One that grows too large downwards leaves a zero,
which has it as well. -/
theorem isBinary_of_readExponent (h : readExponent negative s e bytes = .ok (n, rest)) :
    n.IsBinary := by
  unfold readExponent at h
  dsimp only at h
  split at h
  · cases h
  · split at h
    · split at h
      · exact isBinary_of_finish h
      · cases eq_of_ite_error h
        exact .float (Binary64.representable_zero negative)
    · cases h

theorem isBinary_of_readTail (h : readTail negative s e bytes = .ok (n, rest)) :
    n.IsBinary := by
  unfold readTail at h
  split at h
  · split_ifs at h
    · exact isBinary_of_readExponent h
    · exact isBinary_of_finish h
  · exact isBinary_of_finish h

/-- With a point it has the format too. -/
theorem isBinary_of_readFraction (h : readFraction negative s e bytes = .ok (n, rest)) :
    n.IsBinary := by
  unfold readFraction at h
  split at h
  · cases h
  · split_ifs at h
    generalize fractionDigits s 0 _ = digits at h
    obtain ⟨s', places, rest'⟩ := digits
    exact isBinary_of_readTail h

/-- A number without either is an integer in range; a negative one that is out of range, or a
negative zero, becomes a number of the format. -/
theorem sound_of_whole (hs : s ≤ maxUnsigned64) (h : whole negative s bytes = .ok (n, rest)) :
    n.Sound := by
  have hmax : maxUnsigned64 = 2 ^ 64 - 1 := rfl
  have hmin : Nat.pow 2 63 = 2 ^ 63 := rfl
  unfold whole at h
  split_ifs at h with hpositive hlarge
  · cases h
    exact .integer ⟨by omega, by omega⟩
  · exact (isBinary_of_finish h).sound
  · cases h
    exact .integer ⟨by omega, by omega⟩

/-- Behind its integer digits, all of which fit, a number may turn out to be whole. -/
theorem whole_or_isBinary_of_readAfterInteger {dropped : Nat}
    (h : readAfterInteger negative s dropped bytes = .ok (n, rest)) :
    (dropped = 0 ∧ whole negative s bytes = .ok (n, rest)) ∨ n.IsBinary := by
  unfold readAfterInteger at h
  split at h
  · split_ifs at h with hpoint he hdropped
    · exact .inr (isBinary_of_readFraction h)
    · exact .inr (isBinary_of_readExponent h)
    · exact .inl ⟨hdropped, h⟩
    · exact .inr (isBinary_of_finish h)
  · split_ifs at h with hdropped
    · exact .inl ⟨hdropped, h⟩
    · exact .inr (isBinary_of_finish h)

theorem sound_of_readAfterInteger {dropped : Nat} (hs : s ≤ maxUnsigned64)
    (h : readAfterInteger negative s dropped bytes = .ok (n, rest)) : n.Sound := by
  rcases whole_or_isBinary_of_readAfterInteger h with ⟨-, hwhole⟩ | hbinary
  · exact sound_of_whole hs hwhole
  · exact hbinary.sound

/-- A reader gives whole numbers in range and numbers of the format, nothing else. -/
theorem sound_of_read (h : read negative bytes = .ok (n, rest)) : n.Sound := by
  cases bytes with
  | nil => cases h
  | cons b bs =>
    rw [read_cons] at h
    split_ifs at h with hzero hdigit
    · split at h
      · split_ifs at h
        exact sound_of_readAfterInteger (Nat.zero_le _) h
      · exact sound_of_readAfterInteger (Nat.zero_le _) h
    · have hvalue : digitValue b ≤ maxUnsigned64 := by
        have hmax : 256 ≤ maxUnsigned64 := by decide +kernel
        have hlt := b.toNat_lt
        unfold digitValue
        omega
      have hs := integerDigits_le hvalue bs
      generalize integerDigits (digitValue b) bs = digits at h hs
      obtain ⟨s, dropped, rest'⟩ := digits
      exact sound_of_readAfterInteger hs h

end Numeral
end HealthRules
