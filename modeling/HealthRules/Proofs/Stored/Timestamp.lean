import Mathlib
import HealthRules.Proofs.Number.Digits
import HealthRules.Timestamp

/-!
# Reading timestamps back

A timestamp is read back from its text (`Timestamp.ofText?_print`), a leap second and years of more
than four digits included. Every part of the text has a reader of its own, and each stops where the
text of its part ends.
-/

namespace HealthRules

/-- To take off no offset changes nothing. -/
theorem Civil.minusMinutes_zero {c : Civil} (h : c.isValid = true) : c.minusMinutes 0 = c := by
  obtain ⟨year, month, day, hour, minute, second, nanosecond⟩ := c
  simp only [isValid, Bool.and_eq_true, decide_eq_true_eq] at h
  have htotal : ((hour * 60 + minute : Nat) - 0 : Int) % 1440 = (hour * 60 + minute : Nat) := by
    omega
  have hhour : (hour * 60 + minute) / 60 = hour := by omega
  have hminute : (hour * 60 + minute) % 60 = minute := by omega
  unfold minusMinutes
  dsimp only
  rw [htotal, Int.toNat_natCast, hhour, hminute, if_neg (by omega), if_neg (by omega)]

namespace Timestamp

open Number (padded)

/-- A text that does not begin with a digit. -/
def NoDigit (rest : List Char) : Prop :=
  ∀ c ∈ rest.head?, c.isDigit = false

theorem noDigit_cons {c : Char} (h : c.isDigit = false) (cs : List Char) : NoDigit (c :: cs) := by
  intro d hd
  rw [List.head?_cons, Option.mem_some_iff] at hd
  exact hd ▸ h

/-! ## Numbers -/

theorem takeWhile_digits {ds rest : List Char} (hds : ∀ c ∈ ds, c.isDigit = true)
    (h : NoDigit rest) : (ds ++ rest).takeWhile Char.isDigit = ds := by
  rw [List.takeWhile_append_of_pos hds]
  cases rest with
  | nil => exact List.append_nil ds
  | cons c cs =>
    rw [List.takeWhile_cons, h c rfl, if_neg Bool.false_ne_true, List.append_nil]

/-- A reader of digits stops where they end. -/
theorem digits?_append {width : Nat} {ds rest : List Char} (hne : ds ≠ [])
    (hds : ∀ c ∈ ds, c.isDigit = true) (hwidth : ds.length ≤ width) (h : NoDigit rest) :
    digits? width (ds ++ rest) = some (ds, rest) := by
  unfold digits?
  dsimp only
  rw [takeWhile_digits hds h, List.take_of_length_le hwidth, if_neg hne, List.drop_left]

/-- A padded number is read to its end if its width is within the limit. -/
theorem digits?_padded {limit width n : Nat} {rest : List Char} (hwidth : 0 < width)
    (hn : n < 10 ^ width) (hlimit : width ≤ limit) (h : NoDigit rest) :
    digits? limit (padded width n ++ rest) = some (padded width n, rest) :=
  digits?_append (Number.padded_ne_nil width n) (fun _ => Number.isDigit_of_mem_padded)
    ((Number.length_padded hwidth hn).trans_le hlimit) h

theorem trimStart_padded (width n : Nat) (rest : List Char) :
    Text.trimStart (padded width n ++ rest) = padded width n ++ rest := by
  rw [Text.trimStart_eq_self_iff, List.head?_append_of_ne_nil _ (Number.padded_ne_nil width n)]
  exact fun c hc =>
    Number.isBlank_of_isDigit (Number.isDigit_of_mem_padded (List.mem_of_mem_head? hc))

/-- A month, a day, an hour, a minute or a second is read from its two digits. -/
theorem number?_padded {n : Nat} {rest : List Char} (hn : n < 100) (h : NoDigit rest) :
    number? 2 (padded 2 n ++ rest) = some (n, rest) := by
  rw [number?, trimStart_padded, digits?_padded (by decide) hn (Nat.le_refl 2) h, Option.map_some]
  dsimp only
  rw [Number.ofDigitChars_padded]

/-! ## Years and fractions -/

/-- A year of four digits is read without a sign. -/
theorem year?_padded {n : Nat} {rest : List Char} (hn : n < 10000) (h : NoDigit rest) :
    year? (padded 4 n ++ rest) = some ((n : Int), rest) := by
  have hhead : ∀ c cs, padded 4 n ++ rest = c :: cs → c.isDigit = true := by
    intro c cs heq
    have hhead : (padded 4 n ++ rest).head? = (padded 4 n).head? :=
      List.head?_append_of_ne_nil _ (Number.padded_ne_nil 4 n)
    have hmem : c ∈ padded 4 n := by
      apply List.mem_of_mem_head?
      rw [← hhead, heq]
      rfl
    exact Number.isDigit_of_mem_padded hmem
  rw [year?, trimStart_padded]
  split
  · next heq => exact absurd (hhead _ _ heq) (by decide)
  · next heq => exact absurd (hhead _ _ heq) (by decide)
  · rw [digits?_padded (by decide) hn (Nat.le_refl 4) h, Option.map_some]
    dsimp only
    rw [Number.ofDigitChars_padded]

/-- Every year is read back. One that is negative or has more than four digits has a sign in front.
-/
theorem year?_printYear (year : Int) {rest : List Char} (h : NoDigit rest) :
    year? (printYear year ++ rest) = some (year, rest) := by
  have hdigits : digits? (padded 4 year.natAbs ++ rest).length (padded 4 year.natAbs ++ rest) =
      some (padded 4 year.natAbs, rest) := by
    apply digits?_append (Number.padded_ne_nil 4 _) (fun _ => Number.isDigit_of_mem_padded) _ h
    rw [List.length_append]
    exact Nat.le_add_right _ _
  -- behind a sign, as many digits are read as there are
  have hsigned : ∀ sign : Int → Int, sign year.natAbs = year →
      (digits? (padded 4 year.natAbs ++ rest).length (padded 4 year.natAbs ++ rest)).map
        (fun r => (sign (Nat.ofDigitChars 10 r.1 0), r.2)) = some (year, rest) := by
    intro sign hself
    rw [hdigits, Option.map_some, Number.ofDigitChars_padded, hself]
  unfold printYear
  split
  · next hplain =>
    have hself : (year.toNat : Int) = year := by omega
    rw [year?_padded (by omega) h, hself]
  · split
    · next hneg => exact hsigned (fun n => -n) (by omega)
    · next hpos => exact hsigned (fun n => n) (by omega)

/-- A fraction of so many digits. -/
theorem fraction?_padded {width n : Nat} (hwidth : 0 < width) (hlimit : width ≤ 9)
    (hn : n < 10 ^ width) :
    fraction? ('.' :: padded width n ++ ['Z']) = some (n * Nat.pow 10 (9 - width), ['Z']) := by
  have hrest : NoDigit ['Z'] := noDigit_cons (by decide) []
  show (digits? 9 (padded width n ++ ['Z'])).map _ = _
  rw [digits?_padded hwidth hn hlimit hrest, Option.map_some]
  dsimp only
  rw [Number.ofDigitChars_padded, Number.length_padded hwidth hn]
  rfl

/-- A fraction has three, six or nine digits, none of which is lost, or is left out if it is zero.
-/
theorem fraction?_printFraction {nanosecond : Nat} (h : nanosecond < 1000000000) :
    fraction? (printFraction nanosecond ++ ['Z']) = some (nanosecond, ['Z']) := by
  unfold printFraction
  split_ifs with hzero hmillis hmicros
  · rw [hzero]
    rfl
  · have hself : nanosecond / 1000000 * Nat.pow 10 6 = nanosecond := by
      show nanosecond / 1000000 * 1000000 = nanosecond
      omega
    rw [fraction?_padded (by decide) (by decide) (by omega), hself]
  · have hself : nanosecond / 1000 * Nat.pow 10 3 = nanosecond := by
      show nanosecond / 1000 * 1000 = nanosecond
      omega
    rw [fraction?_padded (by decide) (by decide) (by omega), hself]
  · have hself : nanosecond * Nat.pow 10 0 = nanosecond := Nat.mul_one nanosecond
    rw [fraction?_padded (by decide) (by decide) (by omega), hself]

/-! ## Timestamps -/

theorem noDigit_printFraction (nanosecond : Nat) : NoDigit (printFraction nanosecond ++ ['Z']) := by
  unfold printFraction
  split_ifs <;> exact noDigit_cons (by decide) _

theorem ofCivil?_civil (t : Timestamp) : ofCivil? t.civil = some t :=
  dif_pos t.valid

/-- A timestamp is read back from its text. -/
theorem ofText?_print (t : Timestamp) : ofText? t.print = some t := by
  have hvalid := t.valid
  simp only [Civil.isValid, Bool.and_eq_true, decide_eq_true_eq] at hvalid
  have hday : Civil.daysInMonth t.civil.year t.civil.month ≤ 31 := by
    unfold Civil.daysInMonth
    split
    · split <;> decide
    all_goals decide
  -- what stands behind each part is no digit, so its reader stops there
  have hdash : ∀ rest, mark? '-' ('-' :: rest) = some rest := fun rest => rfl
  have hcolon : ∀ rest, mark? ':' (':' :: rest) = some rest := fun rest => rfl
  have hdivider : ∀ rest, divider? ('T' :: rest) = some rest := fun rest => rfl
  have hyear : ∀ rest, year? (printYear t.civil.year ++ '-' :: rest) =
      some (t.civil.year, '-' :: rest) := fun rest =>
    year?_printYear _ (noDigit_cons (by decide) rest)
  have hnumber : ∀ {n : Nat} {c : Char} (rest : List Char), n < 100 → c.isDigit = false →
      number? 2 (padded 2 n ++ c :: rest) = some (n, c :: rest) := fun rest hn hc =>
    number?_padded hn (noDigit_cons hc rest)
  have hmonth := fun rest => hnumber (n := t.civil.month) (c := '-') rest (by omega) rfl
  have hday := fun rest => hnumber (n := t.civil.day) (c := 'T') rest (by omega) rfl
  have hhour := fun rest => hnumber (n := t.civil.hour) (c := ':') rest (by omega) rfl
  have hminute := fun rest => hnumber (n := t.civil.minute) (c := ':') rest (by omega) rfl
  have hsecond : number? 2 (padded 2 t.civil.second ++
      (printFraction t.civil.nanosecond ++ ['Z'])) =
        some (t.civil.second, printFraction t.civil.nanosecond ++ ['Z']) :=
    number?_padded (by omega) (noDigit_printFraction _)
  have hfraction : fraction? (printFraction t.civil.nanosecond ++ ['Z']) =
      some (t.civil.nanosecond, ['Z']) := fraction?_printFraction (by omega)
  have hoffset : offset? (Text.trimStart ['Z']) = some (0, []) := by decide
  have hsame : ofCivil? (t.civil.minusMinutes 0) = some t := by
    rw [Civil.minusMinutes_zero t.valid, ofCivil?_civil]
  have hprint : t.print = printYear t.civil.year ++ '-' :: (padded 2 t.civil.month ++
      '-' :: (padded 2 t.civil.day ++ 'T' :: (padded 2 t.civil.hour ++
        ':' :: (padded 2 t.civil.minute ++ ':' :: (padded 2 t.civil.second ++
          (printFraction t.civil.nanosecond ++ ['Z'])))))) := by
    rw [print]
    simp only [List.append_assoc, List.cons_append]
  rw [hprint]
  refine Option.bind_eq_some_iff.mpr ⟨_, hyear _, ?_⟩
  refine Option.bind_eq_some_iff.mpr ⟨_, hdash _, ?_⟩
  refine Option.bind_eq_some_iff.mpr ⟨_, hmonth _, ?_⟩
  refine Option.bind_eq_some_iff.mpr ⟨_, hdash _, ?_⟩
  refine Option.bind_eq_some_iff.mpr ⟨_, hday _, ?_⟩
  refine Option.bind_eq_some_iff.mpr ⟨_, hdivider _, ?_⟩
  refine Option.bind_eq_some_iff.mpr ⟨_, hhour _, ?_⟩
  refine Option.bind_eq_some_iff.mpr ⟨_, hcolon _, ?_⟩
  refine Option.bind_eq_some_iff.mpr ⟨_, hminute _, ?_⟩
  refine Option.bind_eq_some_iff.mpr ⟨_, hcolon _, ?_⟩
  refine Option.bind_eq_some_iff.mpr ⟨_, hsecond, ?_⟩
  refine Option.bind_eq_some_iff.mpr ⟨_, hfraction, ?_⟩
  refine Option.bind_eq_some_iff.mpr ⟨_, hoffset, ?_⟩
  refine Option.bind_eq_some_iff.mpr ⟨(), rfl, ?_⟩
  exact Option.bind_eq_some_iff.mpr ⟨t, ofCivil?_civil t, hsame⟩

end Timestamp
end HealthRules
