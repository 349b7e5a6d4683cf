import Mathlib
import HealthRules.Duration
import HealthRules.Proofs.Number.Arithmetic

/-!
# Literals of durations

The simplest literal is one number and the name of a unit. It writes as many of these units as the
number says (`literal?_span`), with zeros in front or without, and is compared by its milliseconds:
exactly, for whole seconds, as long as the milliseconds have 53 bits (`milliseconds_whole`). A
number without a unit is no literal (`literal?_ofInt`).
-/

namespace HealthRules.Duration

open Number (maxUnsigned64 natural? ofInt)
open Number.Binary64 hiding zero

/-! ## Units -/

theorem isDigit_of_isUnitChar {c : Char} (h : isUnitChar c = true) : c.isDigit = false := by
  rw [isUnitChar, Bool.or_eq_true, beq_iff_eq] at h
  rcases h with halpha | rfl
  · rw [← Bool.not_eq_true]
    intro hdigit
    rw [Number.isAlpha_of_isDigit hdigit] at halpha
    exact absurd halpha Bool.false_ne_true
  · decide

theorem isBlank_of_isUnitChar {c : Char} (h : isUnitChar c = true) : Text.isBlank c = false := by
  rw [isUnitChar, Bool.or_eq_true, beq_iff_eq] at h
  rcases h with halpha | rfl
  · exact Number.isBlank_of_isAlpha halpha
  · decide

namespace TimeUnit

/-- The name of a unit is a word that ends in a letter. -/
structure IsName (name : List Char) : Prop where
  ne_nil : name ≠ []
  chars : ∀ c ∈ name, isUnitChar c = true
  last : name.getLast?.any Char.isAlpha = true

/-- Every name in the table of units is such a word. -/
theorem isName_of_ofName? {name : List Char} {unit : TimeUnit} (h : ofName? name = some unit) :
    IsName name := by
  have hnames : ∀ entry ∈ names, ∀ text ∈ entry.2, text.toList ≠ [] ∧
      text.toList.all isUnitChar = true ∧ text.toList.getLast?.any Char.isAlpha = true := by
    decide +kernel
  obtain ⟨entry, hfind, -⟩ := Option.map_eq_some_iff.mp h
  have htext : String.ofList name ∈ entry.2 := by
    have hcontains := List.find?_some hfind
    exact List.contains_iff_mem.mp hcontains
  have hname := hnames entry (List.mem_of_find?_eq_some hfind) _ htext
  rw [String.toList_ofList] at hname
  exact ⟨hname.1, List.all_eq_true.mp hname.2.1, hname.2.2⟩

end TimeUnit

/-! ## Reading -/

/-- A reader of durations goes on from where a step leads. -/
theorem readFrom?_cons {d d' : Duration} {place place' : Place} {c : Char}
    (h : d.step? place c = some (d', place')) (cs : List Char) :
    readFrom? d place (c :: cs) = readFrom? d' place' cs := by
  rw [readFrom?, h, Option.bind_some]

/-- Digits extend the integer that they follow. -/
theorem readFrom?_digits {cs : List Char} (h : ∀ c ∈ cs, c.isDigit = true) (d : Duration) {n : Nat}
    (hfit : Nat.ofDigitChars 10 cs n ≤ maxUnsigned64) (rest : List Char) :
    readFrom? d (.integer n) (cs ++ rest) =
      readFrom? d (.integer (Nat.ofDigitChars 10 cs n)) rest := by
  induction cs generalizing n with
  | nil => rfl
  | cons c cs ih =>
    rw [Nat.ofDigitChars_cons] at hfit ⊢
    have hvalue : n * 10 + digitValue c = 10 * n + (c.toNat - '0'.toNat) := by
      rw [Nat.mul_comm]
      rfl
    have hle := (Number.le_ofDigitChars cs _).trans hfit
    have hstep : d.step? (.integer n) c =
        some (d, .integer (10 * n + (c.toNat - '0'.toNat))) := by
      rw [step?, if_pos (h c List.mem_cons_self), hvalue, fit?, if_pos hle, Option.map_some]
    rw [List.cons_append, readFrom?_cons hstep]
    exact ih (fun c' hc => h c' (List.mem_cons_of_mem c hc)) hfit

/-- A unit ends with the text. -/
theorem readFrom?_unit {cs : List Char} (h : ∀ c ∈ cs, isUnitChar c = true) (d : Duration) (n : Nat)
    (f : Option Fraction) (name : List Char) :
    readFrom? d (.unit n f name) cs = d.addSpan? n f (name ++ cs) := by
  induction cs generalizing name with
  | nil =>
    rw [List.append_nil]
    rfl
  | cons c cs ih =>
    have hc := h c List.mem_cons_self
    have hstep : d.step? (.unit n f name) c = some (d, .unit n f (name ++ [c])) := by
      simp only [step?, isDigit_of_isUnitChar hc, isBlank_of_isUnitChar hc, hc,
        Bool.false_eq_true, if_false, if_true]
    rw [readFrom?_cons hstep, ih (fun c' hc' => h c' (List.mem_cons_of_mem c hc')),
      List.append_assoc, List.singleton_append]

/-- Digits and a word behind them are one span, which is added when the text ends. -/
theorem ofText?_span {digits name : List Char} {n : Nat} (hn : natural? digits = some n)
    (hfit : n ≤ maxUnsigned64) (hne : name ≠ []) (hname : ∀ c ∈ name, isUnitChar c = true) :
    ofText? (digits ++ name) = zero.addSpan? n none name := by
  obtain ⟨hdigits, hall, hvalue⟩ := Number.natural?_eq_some_iff.mp hn
  obtain ⟨c, cs, rfl⟩ := List.exists_cons_of_ne_nil hdigits
  obtain ⟨u, us, rfl⟩ := List.exists_cons_of_ne_nil hne
  have hu := hname u List.mem_cons_self
  have hfirst : zero.step? .start c = some (zero, .integer (digitValue c)) := by
    rw [step?, if_pos (hall c List.mem_cons_self)]
  have hlast : zero.step? (.integer n) u = some (zero, .unit n none [u]) := by
    simp only [step?, isDigit_of_isUnitChar hu, isBlank_of_isUnitChar hu, hu, Bool.false_eq_true,
      if_false, if_true]
  have hdigit : Nat.ofDigitChars 10 cs (digitValue c) = n := by
    rw [← hvalue, Nat.ofDigitChars_cons, Nat.mul_zero, Nat.zero_add]
    rfl
  rw [ofText?, List.cons_append, readFrom?_cons hfirst,
    readFrom?_digits (fun c' hc => hall c' (List.mem_cons_of_mem c hc)) zero (hdigit.trans_le hfit),
    hdigit, readFrom?_cons hlast,
    readFrom?_unit (fun u' hu' => hname u' (List.mem_cons_of_mem u hu')), List.singleton_append]

theorem addSpan?_none (d : Duration) (n : Nat) (name : List Char) :
    d.addSpan? n none name = (TimeUnit.ofName? name).bind fun unit =>
      (fit? (n * unit.size.1)).bind fun s => (fit? (n * unit.size.2)).bind fun ns =>
        (d.add? s ns).bind some := rfl

/-- The first span is the whole duration so far. -/
theorem add?_zero {seconds nanoseconds : Nat} (h : nanoseconds ≤ maxUnsigned64) :
    zero.add? seconds nanoseconds = ofParts? seconds nanoseconds := by
  have hnanos : zero.nanoseconds.val + nanoseconds = nanoseconds := Nat.zero_add nanoseconds
  have hseconds : zero.seconds.toNat + seconds = seconds := Nat.zero_add seconds
  rw [add?, hnanos, hseconds, fit?, if_pos h]
  rfl

/-- A span without a fraction is as many units as its number says. -/
theorem addSpan?_zero {n : Nat} {name : List Char} {unit : TimeUnit}
    (h : TimeUnit.ofName? name = some unit) (hnanos : n * unit.size.2 ≤ maxUnsigned64) :
    zero.addSpan? n none name = ofParts? (n * unit.size.1) (n * unit.size.2) := by
  have hfit : fit? (n * unit.size.2) = some (n * unit.size.2) := if_pos hnanos
  rw [addSpan?_none, h, Option.bind_some, hfit]
  rcases Nat.lt_or_ge maxUnsigned64 (n * unit.size.1) with hlarge | hsmall
  · -- too many seconds, with the nanoseconds or without
    have hseconds : fit? (n * unit.size.1) = none := if_neg (Nat.not_le_of_lt hlarge)
    have hsum : fit? (n * unit.size.1 + n * unit.size.2 / nanosPerSecond) = none :=
      if_neg (Nat.not_le_of_lt (Nat.lt_add_right _ hlarge))
    rw [hseconds, ofParts?, hsum]
    rfl
  · have hseconds : fit? (n * unit.size.1) = some (n * unit.size.1) := if_pos hsmall
    rw [hseconds, Option.bind_some, Option.bind_some, add?_zero hnanos, Option.bind_fun_some]

/-- One number with one unit. -/
theorem literal?_span {digits name : List Char} {n : Nat} {unit : TimeUnit}
    (hn : natural? digits = some n) (hfit : n ≤ maxUnsigned64)
    (hname : TimeUnit.ofName? name = some unit) (hnanos : n * unit.size.2 ≤ maxUnsigned64) :
    literal? (digits ++ name) = ofParts? (n * unit.size.1) (n * unit.size.2) := by
  obtain ⟨hdigits, hall, -⟩ := Number.natural?_eq_some_iff.mp hn
  have hword := TimeUnit.isName_of_ofName? hname
  have hlast : (digits ++ name).getLast?.any Char.isAlpha = true := by
    rw [List.getLast?_append_of_ne_nil _ hword.ne_nil]
    exact hword.last
  have hfirst : (digits ++ name).head?.any Char.isDigit = true := by
    rw [List.head?_append_of_ne_nil _ hdigits, List.head?_eq_some_head hdigits, Option.any_some]
    exact hall _ (List.head_mem hdigits)
  rw [literal?, if_pos ⟨hlast, hfirst⟩, ofText?_span hn hfit hword.ne_nil hword.chars,
    addSpan?_zero hname hnanos]

/-- No number without a unit is a duration. -/
theorem literal?_ofInt (n : Int) : literal? (ofInt n) = none := by
  obtain ⟨c, hlast, hdigit⟩ := Number.getLast?_ofInt n
  have hletter : c.isAlpha = false := Number.isAlpha_of_isDigit hdigit
  unfold literal?
  rw [hlast, Option.any_some, hletter, if_neg (fun h => absurd h.1 Bool.false_ne_true)]

/-! ## Comparing -/

-- To unfold one of these as far as possible is to compute a power of two of a thousand digits.
attribute [local irreducible] unitsPerOne overflow in
theorem milliseconds_eq (d : Duration) : d.milliseconds =
    ((ofNat? d.seconds.toNat).bind fun seconds => (ofNat? d.nanoseconds.val).bind fun nanos =>
      (ofNat? nanosPerSecond).bind fun second => (nanos.div? second).bind fun fraction =>
        (seconds.addMagnitude? fraction).bind fun sum => (ofNat? 1000).bind fun thousand =>
          sum.mul? thousand).getD Number.Binary64.zero := rfl

theorem ofParts?_whole {s : Nat} (h : s ≤ maxUnsigned64) :
    ofParts? s 0 = some ⟨UInt64.ofNat s, 0⟩ := by
  have hsum : s + 0 / nanosPerSecond = s := by rw [Nat.zero_div, Nat.add_zero]
  rw [ofParts?, hsum, fit?, if_pos h]
  rfl

/-- No operation on whole seconds rounds. -/
theorem milliseconds_whole {s : Nat} (h : s * 1000 < 2 ^ 53) :
    milliseconds ⟨UInt64.ofNat s, 0⟩ = whole (s * 1000) := by
  have hseconds : ofNat? (UInt64.ofNat s).toNat = some (whole s) := by
    have hsize : s < UInt64.size := Nat.lt_of_lt_of_le (show s < 2 ^ 53 by omega) (by decide)
    rw [UInt64.toNat_ofNat_of_lt' hsize]
    exact ofNat?_whole (by omega)
  have hnanos : ofNat? (0 : Fin 1000000000).val = some (whole (0 * nanosPerSecond)) :=
    ofNat?_whole (by decide)
  have hsecond : ofNat? nanosPerSecond = some (whole nanosPerSecond) :=
    ofNat?_whole (by decide)
  have hfraction : (whole (0 * nanosPerSecond)).div? (whole nanosPerSecond) = some (whole 0) := by
    rw [div?_whole 0 (by decide), ofNat?_whole (by decide)]
  have hsum : (whole s).addMagnitude? (whole 0) = some (whole s) := by
    rw [addMagnitude?_whole, Nat.add_zero, ofNat?_whole (by omega)]
  have hthousand : ofNat? 1000 = some (whole 1000) :=
    ofNat?_whole (by decide)
  have hproduct : (whole s).mul? (whole 1000) = some (whole (s * 1000)) := by
    rw [mul?_whole, ofNat?_whole h]
  rw [milliseconds_eq, hseconds, Option.bind_some, hnanos, Option.bind_some, hsecond,
    Option.bind_some, hfraction, Option.bind_some, hsum, Option.bind_some, hthousand,
    Option.bind_some, hproduct, Option.getD_some]

end HealthRules.Duration
