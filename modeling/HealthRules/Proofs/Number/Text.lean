import Mathlib
import HealthRules.Proofs.Number.Digits

/-!
# The text of a number

The text of a number is a sign, digits, perhaps a point and more digits, and perhaps an exponent
(`Decimal.exists_parts`). What tells it from other literals is read off these parts: it has no colon
and one point at most (`OnePoint`), and no letter stands at its end (`Unlettered`).
-/

namespace HealthRules.Number

variable {cs xs ys : List Char} {c : Char}

/-! ## Parts -/

/-- A text is an optional sign and what is left of it. -/
theorem exists_sign (cs : List Char) :
    ∃ sign, (sign = [] ∨ sign = ['+'] ∨ sign = ['-']) ∧ cs = sign ++ (splitSign cs).2 := by
  unfold splitSign
  split
  · exact ⟨['+'], .inr (.inl rfl), rfl⟩
  · exact ⟨['-'], .inr (.inr rfl), rfl⟩
  · exact ⟨[], .inl rfl, rfl⟩

namespace Decimal

/-- There is no exponent, or there is a letter and an integer in decimal behind it. -/
theorem exponent?_cases {e : Int} (h : exponent? cs = some e) :
    cs = [] ∨ ∃ letter rest n, (letter = 'e' ∨ letter = 'E') ∧ cs = letter :: rest ∧
      natural? (splitSign rest).2 = some n := by
  unfold exponent? at h
  split at h
  · exact .inl rfl
  · next letter rest =>
    obtain ⟨hletter, h⟩ := Option.ite_none_right_eq_some.mp h
    obtain ⟨_, h, -⟩ := Option.map_eq_some_iff.mp h
    obtain ⟨n, hn, -⟩ := Option.bind_eq_some_iff.mp h
    exact .inr ⟨letter, rest, n, hletter, rfl, hn⟩

/-- A number without its sign. -/
theorem exists_parts {negative : Bool} {d : Decimal} (h : magnitude? negative cs = some d) :
    ∃ whole point fraction exponent e, cs = whole ++ (point ++ (fraction ++ exponent)) ∧
      (∀ c ∈ whole, c.isDigit = true) ∧ (point = [] ∨ point = ['.']) ∧
      (∀ c ∈ fraction, c.isDigit = true) ∧ exponent? exponent = some e := by
  unfold magnitude? at h
  dsimp only at h
  obtain ⟨-, h⟩ := Option.ite_none_left_eq_some.mp h
  obtain ⟨e, he, -⟩ := Option.map_eq_some_iff.mp h
  have hdigits : ∀ cs : List Char, ∀ c ∈ cs.takeWhile Char.isDigit, c.isDigit = true :=
    fun _ _ hc => List.mem_takeWhile_imp hc
  have hcs := (List.takeWhile_append_dropWhile (p := Char.isDigit) (l := cs)).symm
  split at he
  · next rest hrest =>
    have hfraction := (List.takeWhile_append_dropWhile (p := Char.isDigit) (l := rest)).symm
    rw [hrest] at hcs
    refine ⟨_, ['.'], _, _, e, ?_, hdigits cs, .inr rfl, hdigits rest, he⟩
    rw [← hfraction]
    exact hcs
  · exact ⟨_, [], [], _, e, hcs, hdigits cs, .inl rfl, List.forall_mem_nil _, he⟩

end Decimal

/-! ## Colons and points -/

/-- What the text of a number has of the characters between the parts of an address. -/
structure OnePoint (cs : List Char) : Prop where
  colons : cs.count ':' = 0
  points : cs.count '.' ≤ 1

theorem count_of_digits (hc : c = ':' ∨ c = '.') (h : ∀ d ∈ cs, d.isDigit = true) :
    cs.count c = 0 := by
  refine List.count_eq_zero_of_not_mem fun hmem => ?_
  have hdigit := h c hmem
  rcases hc with rfl | rfl <;> exact absurd hdigit (by decide)

theorem count_natural? (hc : c = ':' ∨ c = '.') {n : Nat} (h : natural? cs = some n) :
    cs.count c = 0 :=
  count_of_digits hc (natural?_eq_some_iff.mp h).2.1

/-- A sign is neither of the two characters. -/
theorem count_splitSign (hc : c = ':' ∨ c = '.') : cs.count c = (splitSign cs).2.count c := by
  obtain ⟨sign, hsign, hcs⟩ := exists_sign cs
  have hcount : sign.count c = 0 := by
    rcases hsign with rfl | rfl | rfl <;> rcases hc with rfl | rfl <;> rfl
  conv_lhs => rw [hcs, List.count_append, hcount, Nat.zero_add]

/-- An integer has neither a colon nor a point. -/
theorem onePoint_of_signed64? {n : Int} (h : signed64? cs = some n) : OnePoint cs := by
  obtain ⟨m, hm, -⟩ := Option.bind_eq_some_iff.mp h
  have hcount : ∀ c, c = ':' ∨ c = '.' → cs.count c = 0 := by
    intro c hc
    rw [count_splitSign hc]
    exact count_natural? hc hm
  exact ⟨hcount _ (.inl rfl), (hcount _ (.inr rfl)).trans_le (Nat.zero_le 1)⟩

namespace Decimal

theorem count_exponent? (hc : c = ':' ∨ c = '.') {e : Int} (h : exponent? cs = some e) :
    cs.count c = 0 := by
  rcases exponent?_cases h with rfl | ⟨letter, rest, n, hletter, rfl, hn⟩
  · rfl
  · have hne : letter ≠ c := by
      rcases hletter with rfl | rfl <;> rcases hc with rfl | rfl <;> decide
    rw [List.count_cons_of_ne hne, count_splitSign hc]
    exact count_natural? hc hn

/-- A decimal has a point only between its whole part and its fraction. -/
theorem onePoint_of_ofText? {d : Decimal} (h : ofText? cs = some d) : OnePoint cs := by
  have hmagnitude : magnitude? (splitSign cs).1 (splitSign cs).2 = some d := h
  obtain ⟨whole, point, fraction, exponent, e, hcs, hwhole, hpoint, hfraction, he⟩ :=
    exists_parts hmagnitude
  -- only the point itself counts
  have hcount : ∀ c, c = ':' ∨ c = '.' → cs.count c = point.count c := by
    intro c hc
    have hrest : (splitSign cs).2.count c = point.count c := by
      rw [hcs, List.count_append, List.count_append, List.count_append, count_of_digits hc hwhole,
        count_of_digits hc hfraction, count_exponent? hc he, Nat.zero_add, Nat.add_zero]
    rw [count_splitSign hc, hrest]
  constructor
  · rw [hcount _ (.inl rfl)]
    rcases hpoint with rfl | rfl <;> decide
  · rw [hcount _ (.inr rfl)]
    rcases hpoint with rfl | rfl <;> decide

end Decimal

/-! ## The end -/

/-- No letter stands at the end of the text. -/
def Unlettered (cs : List Char) : Prop :=
  cs.getLast?.any Char.isAlpha = false

instance (cs : List Char) : Decidable (Unlettered cs) :=
  inferInstanceAs (Decidable (cs.getLast?.any Char.isAlpha = false))

/-- The end of two texts is the end of the second one, or of the first if there is no second. -/
theorem Unlettered.append (hxs : Unlettered xs) (hys : Unlettered ys) : Unlettered (xs ++ ys) := by
  unfold Unlettered at *
  rw [List.getLast?_append]
  cases hlast : ys.getLast? with
  | none => exact hxs
  | some c => rwa [hlast] at hys

/-- In front of a text that is not empty any character may stand. -/
theorem Unlettered.cons (h : Unlettered cs) (hne : cs ≠ []) (c : Char) : Unlettered (c :: cs) := by
  unfold Unlettered at *
  obtain ⟨d, ds, rfl⟩ := List.exists_cons_of_ne_nil hne
  rwa [List.getLast?_cons_cons]

theorem unlettered_of_digits (h : ∀ c ∈ cs, c.isDigit = true) : Unlettered cs := by
  unfold Unlettered
  cases hlast : cs.getLast? with
  | none => rfl
  | some c => exact isAlpha_of_isDigit (h c (List.mem_of_getLast? hlast))

/-- A sign in front does not change the end, and is no letter if it stands alone. -/
theorem unlettered_splitSign (h : Unlettered (splitSign cs).2) : Unlettered cs := by
  obtain ⟨sign, hsign, hcs⟩ := exists_sign cs
  have hend : Unlettered sign := by
    rcases hsign with rfl | rfl | rfl <;> decide
  rw [hcs]
  exact hend.append h

namespace Decimal

/-- The letter of an exponent has digits behind it. -/
theorem unlettered_exponent? {e : Int} (h : exponent? cs = some e) : Unlettered cs := by
  rcases exponent?_cases h with rfl | ⟨letter, rest, n, -, rfl, hn⟩
  · decide
  · obtain ⟨hne, hdigits, -⟩ := natural?_eq_some_iff.mp hn
    have hrest : rest ≠ [] := by
      rintro rfl
      exact hne rfl
    exact (unlettered_splitSign (unlettered_of_digits hdigits)).cons hrest letter

/-- A decimal has no letter at its end, so it has no unit: each of its parts ends otherwise. -/
theorem unlettered_of_ofText? {d : Decimal} (h : ofText? cs = some d) : Unlettered cs := by
  have hmagnitude : magnitude? (splitSign cs).1 (splitSign cs).2 = some d := h
  obtain ⟨whole, point, fraction, exponent, e, hcs, hwhole, hpoint, hfraction, he⟩ :=
    exists_parts hmagnitude
  have hend : Unlettered point := by
    rcases hpoint with rfl | rfl <;> decide
  apply unlettered_splitSign
  rw [hcs]
  exact (unlettered_of_digits hwhole).append
    (hend.append ((unlettered_of_digits hfraction).append (unlettered_exponent? he)))

end Decimal

/-- A number ends with a digit or with a point. -/
theorem unlettered_of_binary64? {x : Binary64} (h : binary64? cs = some x) : Unlettered cs := by
  obtain ⟨d, hd, -⟩ := Option.bind_eq_some_iff.mp h
  exact Decimal.unlettered_of_ofText? hd

end HealthRules.Number
