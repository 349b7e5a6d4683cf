import Mathlib
import HealthRules.Proofs.Json.Numeral
import HealthRules.Proofs.Text.Decoding

/-!
# Where a number ends

A reader of numbers takes all digits of a run, whether they fit or not, and so it stops at the first
octet that does not continue the number (`exists_of_read`). The octets that it has taken are ASCII
and end in a digit, and in front of other octets that do not continue a number they are read as
the same number.
-/

namespace HealthRules.Numeral

open Json (Fault)
open Text.Utf8 (ascii_of_ofUInt8)

/-! ## Runs of digits -/

/-- Octets are a run of digits and something else. -/
theorem exists_run (bytes : List UInt8) :
    ∃ ds rest, bytes = ds ++ rest ∧ (∀ b ∈ ds, isDigit b = true) ∧ NoDigit rest := by
  refine ⟨bytes.takeWhile isDigit, bytes.dropWhile isDigit, List.takeWhile_append_dropWhile.symm,
    fun b hb => List.mem_takeWhile_imp hb, ?_⟩
  cases hrest : bytes.dropWhile isDigit with
  | nil => trivial
  | cons b bs =>
    have hhead := List.head?_dropWhile_not isDigit bytes
    rw [hrest] at hhead
    show isDigit b = false
    simpa using hhead

section Run

variable {ds : List UInt8} (hds : ∀ b ∈ ds, isDigit b = true)

include hds

/-- What is left behind a run is what follows it, if this does not begin with a digit. -/
theorem dropWhile_run {rest : List UInt8} (h : NoDigit rest) :
    (ds ++ rest).dropWhile isDigit = rest := by
  rw [List.dropWhile_append_of_pos hds]
  cases rest with
  | nil => rfl
  | cons b bs =>
    rw [List.dropWhile_cons, if_neg]
    rw [h]
    decide

/-- Under the same condition no digit but those of the run is taken. -/
theorem takeWhile_run {rest : List UInt8} (h : NoDigit rest) :
    (ds ++ rest).takeWhile isDigit = ds := by
  have hsplit : (ds ++ rest).takeWhile isDigit ++ (ds ++ rest).dropWhile isDigit = ds ++ rest :=
    List.takeWhile_append_dropWhile
  rw [dropWhile_run hds h] at hsplit
  exact List.append_cancel_right hsplit

/-- A run goes into the significand as far as it fits. -/
theorem exists_integerDigits (n : Nat) : ∃ s dropped, ∀ rest, NoDigit rest →
    integerDigits n (ds ++ rest) = (s, dropped, rest) := by
  induction ds generalizing n with
  | nil => exact ⟨n, 0, fun rest h => integerDigits_of_noDigit h n⟩
  | cons b ds ih =>
    have hmore : ∀ d ∈ ds, isDigit d = true := fun d hd => hds d (List.mem_cons_of_mem b hd)
    cases hpush : push? n (digitValue b) with
    | none =>
      refine ⟨n, 1 + ds.length, fun rest h => ?_⟩
      rw [List.cons_append, integerDigits_cons, hds b List.mem_cons_self, if_pos rfl, hpush]
      dsimp only
      rw [takeWhile_run hmore h, dropWhile_run hmore h]
    | some s =>
      obtain ⟨s', dropped, hread⟩ := ih hmore s
      refine ⟨s', dropped, fun rest h => ?_⟩
      rw [List.cons_append, integerDigits_cons, hds b List.mem_cons_self, if_pos rfl, hpush]
      exact hread rest h

/-- A run of a fraction is taken to its end too, and only the digits that fit count as places. -/
theorem exists_fractionDigits (n places : Nat) : ∃ s places', ∀ rest, NoDigit rest →
    fractionDigits n places (ds ++ rest) = (s, places', rest) := by
  induction ds generalizing n places with
  | nil => exact ⟨n, places, fun rest h => fractionDigits_of_noDigit h n places⟩
  | cons b ds ih =>
    have hmore : ∀ d ∈ ds, isDigit d = true := fun d hd => hds d (List.mem_cons_of_mem b hd)
    cases hpush : push? n (digitValue b) with
    | none =>
      refine ⟨n, places, fun rest h => ?_⟩
      rw [List.cons_append, fractionDigits_cons, hds b List.mem_cons_self, if_pos rfl, hpush]
      dsimp only
      rw [dropWhile_run hmore h]
    | some s =>
      obtain ⟨s', places', hread⟩ := ih hmore s (places + 1)
      refine ⟨s', places', fun rest h => ?_⟩
      rw [List.cons_append, fractionDigits_cons, hds b List.mem_cons_self, if_pos rfl, hpush]
      exact hread rest h

/-- A run is an exponent, or it grows too large at one of its digits. -/
theorem exponentDigits_run (n : Nat) :
    (∃ e, ∀ rest, NoDigit rest → exponentDigits n (ds ++ rest) = .ok (e, rest)) ∨
      ∃ more, (∀ b ∈ more, isDigit b = true) ∧
        ∀ rest, exponentDigits n (ds ++ rest) = .error (more ++ rest) := by
  induction ds generalizing n with
  | nil => exact .inl ⟨n, fun rest h => exponentDigits_of_noDigit h n⟩
  | cons b ds ih =>
    have hmore : ∀ d ∈ ds, isDigit d = true := fun d hd => hds d (List.mem_cons_of_mem b hd)
    have hstep : ∀ rest, exponentDigits n (b :: ds ++ rest) =
        if n * 10 + digitValue b ≤ maxExponent then
          exponentDigits (n * 10 + digitValue b) (ds ++ rest) else .error (ds ++ rest) := by
      intro rest
      rw [List.cons_append, exponentDigits, hds b List.mem_cons_self, if_pos rfl]
    by_cases hle : n * 10 + digitValue b ≤ maxExponent
    · rcases ih hmore (n * 10 + digitValue b) with ⟨e, hread⟩ | ⟨more, hdigits, hread⟩
      · exact .inl ⟨e, fun rest h => by rw [hstep, if_pos hle, hread rest h]⟩
      · exact .inr ⟨more, hdigits, fun rest => by rw [hstep, if_pos hle, hread rest]⟩
    · exact .inr ⟨ds, hmore, fun rest => by rw [hstep, if_neg hle]⟩

end Run

/-! ## Parts of a number -/

/-- Octets of ASCII that end in a digit. -/
structure Part (used : List UInt8) : Prop where
  ascii : ∀ b ∈ used, b.toNat < 0x80
  last : ∃ front d, used = front ++ [d] ∧ isDigit d = true

/-- A reader takes some octets for a number and leaves the rest. In front of others that do not
continue a number it takes the same octets for the same number. -/
def Takes (read : List UInt8 → Except Fault (Numeral × List UInt8)) (bytes : List UInt8)
    (n : Numeral) (rest : List UInt8) : Prop :=
  ∃ used, bytes = used ++ rest ∧ Part used ∧
    ∀ rest', Ends rest' → read (used ++ rest') = .ok (n, rest')

/-- A reader may also have a number without taking anything. -/
def MayTake (read : List UInt8 → Except Fault (Numeral × List UInt8)) (bytes : List UInt8)
    (n : Numeral) (rest : List UInt8) : Prop :=
  (bytes = rest ∧ ∀ rest', Ends rest' → read rest' = .ok (n, rest')) ∨ Takes read bytes n rest

theorem ascii_of_isDigit {b : UInt8} (h : isDigit b = true) : b.toNat < 0x80 := by
  have hrange := toNat_of_isDigit h
  omega

theorem part_run {ds : List UInt8} (hne : ds ≠ []) (hds : ∀ b ∈ ds, isDigit b = true) :
    Part ds where
  ascii := fun b hb => ascii_of_isDigit (hds b hb)
  last := ⟨ds.dropLast, ds.getLast hne, (List.dropLast_append_getLast hne).symm,
    hds _ (List.getLast_mem hne)⟩

/-- A part stays one behind octets of ASCII, such as a sign or a point. -/
theorem Part.append {xs ys : List UInt8} (hx : ∀ b ∈ xs, b.toNat < 0x80) (hy : Part ys) :
    Part (xs ++ ys) := by
  obtain ⟨hascii, front, d, rfl, hd⟩ := hy
  exact ⟨List.forall_mem_append.mpr ⟨hx, hascii⟩, xs ++ front, d, (List.append_assoc ..).symm, hd⟩

theorem Part.cons {b : UInt8} (hb : b.toNat < 0x80) {used : List UInt8} (h : Part used) :
    Part (b :: used) := by
  have hfront : ∀ d ∈ [b], d.toNat < 0x80 := List.forall_mem_singleton.mpr hb
  exact Part.append hfront h

/-- What does not begin with a digit does not begin with one in front of something else either. -/
theorem noDigit_append {used rest rest' : List UInt8} (h : NoDigit (used ++ rest))
    (hrest : Ends rest') : NoDigit (used ++ rest') := by
  cases used with
  | nil => exact hrest.noDigit
  | cons b used => exact h

variable {negative : Bool} {s : Nat} {e : Int} {bytes rest : List UInt8} {n : Numeral}

/-- The last step takes nothing, and gives the same number in front of anything. -/
theorem finish_ok (h : finish negative s e bytes = .ok (n, rest)) :
    rest = bytes ∧ ∀ rest', finish negative s e rest' = .ok (n, rest') := by
  have hparts := ofParts?_of_finish h
  have hfinish : ∀ rest', finish negative s e rest' = .ok (n, rest') := fun rest' => by
    rw [finish_eq, hparts]
  refine ⟨?_, hfinish⟩
  rw [hfinish bytes] at h
  cases h
  rfl

/-- The number that has been read with an exponent, which may have grown too large. -/
def afterExponent (negative : Bool) (significand : Nat) (exponent : Int) (down : Bool) :
    Except (List UInt8) (Nat × List UInt8) → Except Fault (Numeral × List UInt8)
  | .ok (e, rest) =>
    finish negative significand (if down then exponent - e else exponent + e) rest
  | .error rest =>
    if significand ≠ 0 ∧ !down then .error (.before .numberOutOfRange rest)
    else .ok (float ⟨negative, 0⟩, rest.dropWhile isDigit)

/-- What follows the sign of an exponent. -/
def readPower (negative : Bool) (significand : Nat) (exponent : Int) (down : Bool) :
    List UInt8 → Except Fault (Numeral × List UInt8)
  | [] => .error (.ending .endInValue)
  | b :: bs =>
    if isDigit b then
      afterExponent negative significand exponent down (exponentDigits (digitValue b) bs)
    else .error (.before .badNumber bs)

/-- An exponent is a power behind an optional sign. -/
theorem readExponent_cons (b : UInt8) (bs : List UInt8) : readExponent negative s e (b :: bs) =
    if Char.ofUInt8 b = '+' then readPower negative s e false bs
    else if Char.ofUInt8 b = '-' then readPower negative s e true bs
    else readPower negative s e false (b :: bs) := by
  unfold readExponent
  by_cases hplus : Char.ofUInt8 b = '+'
  · dsimp only
    rw [if_pos hplus, if_pos hplus]
    cases bs <;> rfl
  · by_cases hminus : Char.ofUInt8 b = '-'
    · dsimp only
      rw [if_neg hplus, if_neg hplus, if_pos hminus, if_pos hminus]
      cases bs <;> rfl
    · dsimp only
      rw [if_neg hplus, if_neg hplus, if_neg hminus, if_neg hminus]
      rfl

/-- That a number is whole is decided without taking anything either. -/
theorem whole_ok (h : whole negative s bytes = .ok (n, rest)) :
    rest = bytes ∧ ∀ rest', whole negative s rest' = .ok (n, rest') := by
  unfold whole at h ⊢
  split_ifs at h ⊢
  · cases h
    exact ⟨rfl, fun _ => rfl⟩
  · exact finish_ok h
  · cases h
    exact ⟨rfl, fun _ => rfl⟩

/-- An exponent is a run of digits. -/
theorem exists_of_readPower {down : Bool}
    (h : readPower negative s e down bytes = .ok (n, rest)) :
    ∃ b ds, bytes = b :: ds ++ rest ∧ (∀ d ∈ b :: ds, isDigit d = true) ∧
      ∀ rest', NoDigit rest' → readPower negative s e down (b :: ds ++ rest') = .ok (n, rest') := by
  cases bytes with
  | nil => cases h
  | cons b bs =>
    obtain ⟨ds, rest₁, rfl, hds, hrest⟩ := exists_run bs
    rw [readPower] at h
    split_ifs at h with hb
    refine ⟨b, ds, ?_⟩
    have hread : ∀ rest', readPower negative s e down (b :: ds ++ rest') =
        afterExponent negative s e down (exponentDigits (digitValue b) (ds ++ rest')) :=
      fun rest' => if_pos hb
    rcases exponentDigits_run hds (digitValue b) with ⟨v, hrun⟩ | ⟨more, hmore, hrun⟩
    · rw [hrun rest₁ hrest, afterExponent] at h
      obtain ⟨rfl, hfinish⟩ := finish_ok h
      refine ⟨rfl, List.forall_mem_cons.mpr ⟨hb, hds⟩, fun rest' h' => ?_⟩
      rw [hread, hrun rest' h', afterExponent, hfinish]
    · -- the digits behind the one at which it grew too large are passed over
      rw [hrun, afterExponent, dropWhile_run hmore hrest] at h
      split_ifs at h with hfault
      cases h
      refine ⟨rfl, List.forall_mem_cons.mpr ⟨hb, hds⟩, fun rest' h' => ?_⟩
      rw [hread, hrun, afterExponent, dropWhile_run hmore h', if_neg hfault]

theorem ascii_of_exponent {b : UInt8} (h : Char.ofUInt8 b = 'e' ∨ Char.ofUInt8 b = 'E') :
    b.toNat < 0x80 :=
  h.elim (ascii_of_ofUInt8 (by decide)) (ascii_of_ofUInt8 (by decide))

/-- An exponent with its sign is taken to the end of its digits. -/
theorem takes_readExponent (h : readExponent negative s e bytes = .ok (n, rest)) :
    Takes (readExponent negative s e) bytes n rest := by
  cases bytes with
  | nil => cases h
  | cons b bs =>
    rw [readExponent_cons] at h
    split_ifs at h with hplus hminus
    · obtain ⟨d, ds, rfl, hdigits, hread⟩ := exists_of_readPower h
      have hb : b.toNat < 0x80 := ascii_of_ofUInt8 (by decide) hplus
      refine ⟨b :: d :: ds, rfl, (part_run (by simp) hdigits).cons hb, fun rest' h' => ?_⟩
      rw [List.cons_append, readExponent_cons, if_pos hplus]
      exact hread rest' h'.noDigit
    · obtain ⟨d, ds, rfl, hdigits, hread⟩ := exists_of_readPower h
      have hb : b.toNat < 0x80 := ascii_of_ofUInt8 (by decide) hminus
      refine ⟨b :: d :: ds, rfl, (part_run (by simp) hdigits).cons hb, fun rest' h' => ?_⟩
      rw [List.cons_append, readExponent_cons, if_neg hplus, if_pos hminus]
      exact hread rest' h'.noDigit
    · obtain ⟨d, ds, heq, hdigits, hread⟩ := exists_of_readPower h
      obtain ⟨rfl, rfl⟩ := List.cons.inj heq
      refine ⟨b :: ds, rfl, part_run (by simp) hdigits, fun rest' h' => ?_⟩
      rw [List.cons_append, readExponent_cons, if_neg hplus, if_neg hminus]
      exact hread rest' h'.noDigit

/-- Behind the digits of a fraction stands an exponent, or nothing that belongs to the number. -/
theorem mayTake_readTail (h : readTail negative s e bytes = .ok (n, rest)) :
    MayTake (readTail negative s e) bytes n rest := by
  have hend : ∀ {bytes}, finish negative s e bytes = .ok (n, rest) →
      MayTake (readTail negative s e) bytes n rest := by
    intro bytes h
    obtain ⟨rfl, hfinish⟩ := finish_ok h
    exact .inl ⟨rfl, fun rest' h' => by rw [readTail_of_ends negative s e h', hfinish]⟩
  cases bytes with
  | nil => exact hend h
  | cons b bs =>
    unfold readTail at h
    dsimp only at h
    split_ifs at h with he
    · obtain ⟨used, rfl, hpart, hread⟩ := takes_readExponent h
      refine .inr ⟨b :: used, rfl, hpart.cons (ascii_of_exponent he), fun rest' h' => ?_⟩
      unfold readTail
      exact (if_pos he).trans (hread rest' h')
    · exact hend h

/-- A fraction is read as its run of digits and what stands behind. -/
theorem readFraction_run {ds : List UInt8} (hne : ds ≠ []) (hds : ∀ b ∈ ds, isDigit b = true)
    {places : Nat} {s' : Nat} {rest : List UInt8}
    (h : fractionDigits s 0 (ds ++ rest) = (s', places, rest)) :
    readFraction negative s e (ds ++ rest) = readTail negative s' (e - places) rest := by
  obtain ⟨d, ds, rfl⟩ := List.exists_cons_of_ne_nil hne
  rw [List.cons_append] at h ⊢
  unfold readFraction
  dsimp only
  rw [hds d List.mem_cons_self, if_pos rfl, h]

/-- A fraction takes one digit at least, and an exponent if one follows. -/
theorem takes_readFraction (h : readFraction negative s e bytes = .ok (n, rest)) :
    Takes (readFraction negative s e) bytes n rest := by
  obtain ⟨ds, rest₁, rfl, hds, hrest⟩ := exists_run bytes
  have hne : ds ≠ [] := by
    rintro rfl
    rw [List.nil_append] at h
    cases rest₁ with
    | nil => cases h
    | cons b bs =>
      unfold readFraction at h
      dsimp only at h
      rw [hrest, if_neg Bool.false_ne_true] at h
      cases h
  obtain ⟨s', places, hdigits⟩ := exists_fractionDigits hds s 0
  have hascii : ∀ b ∈ ds, b.toNat < 0x80 := fun b hb => ascii_of_isDigit (hds b hb)
  rw [readFraction_run hne hds (hdigits rest₁ hrest)] at h
  rcases mayTake_readTail h with ⟨rfl, hread⟩ | ⟨used, rfl, hpart, hread⟩
  · refine ⟨ds, rfl, part_run hne hds, fun rest' h' => ?_⟩
    rw [readFraction_run hne hds (hdigits rest' h'.noDigit), hread rest' h']
  · refine ⟨ds ++ used, (List.append_assoc ..).symm, hpart.append hascii, fun rest' h' => ?_⟩
    rw [List.append_assoc, readFraction_run hne hds (hdigits _ (noDigit_append hrest h')),
      hread rest' h']

/-- Behind the integer digits stands a fraction, an exponent, or nothing that belongs to the number.
-/
theorem mayTake_readAfterInteger {dropped : Nat}
    (h : readAfterInteger negative s dropped bytes = .ok (n, rest)) :
    MayTake (readAfterInteger negative s dropped) bytes n rest := by
  -- where nothing continues the number, it is whole if all of its digits fitted
  have hend : ∀ {bytes}, (if dropped = 0 then whole negative s bytes
      else finish negative s dropped bytes) = .ok (n, rest) →
      MayTake (readAfterInteger negative s dropped) bytes n rest := by
    intro bytes h
    refine .inl ?_
    split_ifs at h with hdropped
    · obtain ⟨rfl, hwhole⟩ := whole_ok h
      exact ⟨rfl, fun rest' h' => by
        rw [readAfterInteger_ends negative s dropped h', if_pos hdropped, hwhole]⟩
    · obtain ⟨rfl, hfinish⟩ := finish_ok h
      exact ⟨rfl, fun rest' h' => by
        rw [readAfterInteger_ends negative s dropped h', if_neg hdropped, hfinish]⟩
  cases bytes with
  | nil => exact hend h
  | cons b bs =>
    unfold readAfterInteger at h
    dsimp only at h
    by_cases hpoint : Char.ofUInt8 b = '.'
    · rw [if_pos hpoint] at h
      obtain ⟨used, rfl, hpart, hread⟩ := takes_readFraction h
      refine .inr ⟨b :: used, rfl, hpart.cons (ascii_of_ofUInt8 (by decide) hpoint),
        fun rest' h' => ?_⟩
      unfold readAfterInteger
      exact (if_pos hpoint).trans (hread rest' h')
    rw [if_neg hpoint] at h
    by_cases he : Char.ofUInt8 b = 'e' ∨ Char.ofUInt8 b = 'E'
    · rw [if_pos he] at h
      obtain ⟨used, rfl, hpart, hread⟩ := takes_readExponent h
      refine .inr ⟨b :: used, rfl, hpart.cons (ascii_of_exponent he), fun rest' h' => ?_⟩
      unfold readAfterInteger
      exact (if_neg hpoint).trans ((if_pos he).trans (hread rest' h'))
    · rw [if_neg he] at h
      exact hend h

/-- A zero stands alone in front of what is no digit. -/
theorem read_zero {b : UInt8} (hzero : Char.ofUInt8 b = '0') {bs : List UInt8} (h : NoDigit bs) :
    read negative (b :: bs) = readAfterInteger negative 0 0 bs := by
  rw [read_cons, if_pos hzero]
  cases bs with
  | nil => rfl
  | cons d bs =>
    dsimp only
    rw [h, if_neg Bool.false_ne_true]

/-- A number that does not begin with a zero is read as its run of digits and what stands behind. -/
theorem read_run {b : UInt8} (hzero : Char.ofUInt8 b ≠ '0') (hb : isDigit b = true)
    {bs : List UInt8} {dropped : Nat}
    (h : integerDigits (digitValue b) bs = (s, dropped, rest)) :
    read negative (b :: bs) = readAfterInteger negative s dropped rest := by
  rw [read_cons, if_neg hzero, hb, if_pos rfl, h]

/-- No digit follows a zero in front. -/
theorem noDigit_of_read_zero {b : UInt8} (hzero : Char.ofUInt8 b = '0') {bs : List UInt8}
    (h : read negative (b :: bs) = .ok (n, rest)) : NoDigit bs := by
  cases bs with
  | nil => trivial
  | cons d bs =>
    rw [read_cons, if_pos hzero] at h
    dsimp only at h
    split_ifs at h with hd
    exact Bool.eq_false_of_not_eq_true hd

/-- A number ends where nothing continues it. -/
theorem takes_read (h : read negative bytes = .ok (n, rest)) :
    Takes (read negative) bytes n rest := by
  obtain ⟨b, bs, rfl, hb⟩ := exists_digit_of_read h
  have hascii := ascii_of_isDigit hb
  -- a zero in front stands alone, any other digit begins a run
  by_cases hzero : Char.ofUInt8 b = '0'
  · have hbs : NoDigit bs := noDigit_of_read_zero hzero h
    rw [read_zero hzero hbs] at h
    rcases mayTake_readAfterInteger h with ⟨rfl, hread⟩ | ⟨used, rfl, hpart, hread⟩
    · refine ⟨[b], rfl, part_run (by simp) (List.forall_mem_singleton.mpr hb), fun rest' h' => ?_⟩
      rw [List.singleton_append, read_zero hzero h'.noDigit, hread rest' h']
    · refine ⟨b :: used, rfl, hpart.cons hascii, fun rest' h' => ?_⟩
      rw [List.cons_append, read_zero hzero (noDigit_append hbs h'), hread rest' h']
  · obtain ⟨ds, rest₁, rfl, hds, hrest⟩ := exists_run bs
    obtain ⟨s, dropped, hdigits⟩ := exists_integerDigits hds (digitValue b)
    have hall : ∀ d ∈ b :: ds, isDigit d = true := List.forall_mem_cons.mpr ⟨hb, hds⟩
    rw [read_run hzero hb (hdigits rest₁ hrest)] at h
    rcases mayTake_readAfterInteger h with ⟨rfl, hread⟩ | ⟨used, rfl, hpart, hread⟩
    · refine ⟨b :: ds, rfl, part_run (by simp) hall, fun rest' h' => ?_⟩
      rw [List.cons_append, read_run hzero hb (hdigits rest' h'.noDigit), hread rest' h']
    · refine ⟨b :: ds ++ used, by simp, hpart.append fun d hd => ascii_of_isDigit (hall d hd),
        fun rest' h' => ?_⟩
      rw [List.append_assoc, List.cons_append,
        read_run hzero hb (hdigits _ (noDigit_append hrest h')), hread rest' h']

end HealthRules.Numeral
