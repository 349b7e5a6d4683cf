import Mathlib
import HealthRules.Proofs.Comparison.Address
import HealthRules.Proofs.Number.Rounding

/-!
# Classes of literals

A literal that is more than a text is a truth value, a finite number, an address or a duration. No
text is two of these (`LiteralClass.eq_of_reads`). An address has the points or the colon that the
others lack (`IpAddress.Shape`). Of the others only a truth value and a duration end with a letter
(`Number.unlettered_of_binary64?`), and only a duration of these two starts with a digit.

So a literal has the kind of its class in whatever order the classes are tried
(`Kind.inferBy_eq_infer`). Values are ordered by their texts and not by their kinds; all the same
two literals have an order exactly if both kinds are numeric (`Value.isSome_order?_literal`).
-/

namespace HealthRules

/-! ## Classes -/

/-- What a literal is, if it is more than a text. -/
inductive LiteralClass where
  | truth
  | number
  | address
  | duration
deriving DecidableEq, Repr

namespace LiteralClass

def all : List LiteralClass := [truth, number, address, duration]

theorem mem_all (a : LiteralClass) : a ∈ all := by
  cases a <;> decide

/-- Whether a text is a literal of the class. -/
def reads : LiteralClass → List Char → Bool
  | truth, cs => cs = "true".toList ∨ cs = "false".toList
  | number, cs => (Number.binary64? cs).isSome
  | address, cs => (IpAddress.ofText? cs).isSome
  | duration, cs => (Duration.literal? cs).isSome

/-- The kind of the literals of the class. Of the numbers, those that are whole and have 64 bits are
a kind of their own. -/
def kind : LiteralClass → List Char → Kind
  | truth, _ => .boolean
  | number, cs => if (Number.signed64? cs).isSome then .integer else .float
  | address, _ => .ipAddress
  | duration, _ => .duration

variable {a b : LiteralClass} {cs : List Char}

theorem reads_truth : truth.reads cs = (boolean? cs).isSome := by
  have hreads : truth.reads cs = decide (cs = "true".toList ∨ cs = "false".toList) := rfl
  have hboolean : boolean? cs = if cs = "true".toList then some true
    else if cs = "false".toList then some false else none := rfl
  rw [hreads, hboolean]
  by_cases htrue : cs = "true".toList
  · rw [if_pos htrue, decide_eq_true (.inl htrue)]
    rfl
  · by_cases hfalse : cs = "false".toList
    · rw [if_neg htrue, if_pos hfalse, decide_eq_true (.inr hfalse)]
      rfl
    · rw [if_neg htrue, if_neg hfalse, decide_eq_false (not_or.mpr ⟨htrue, hfalse⟩)]
      rfl

/-- A whole number of 64 bits is a number. -/
theorem reads_number_of_signed64? (h : (Number.signed64? cs).isSome = true) :
    number.reads cs = true := by
  obtain ⟨n, hn⟩ := Option.isSome_iff_exists.mp h
  exact Option.isSome_iff_exists.mpr (Number.exists_binary64?_of_signed64? hn)

/-! ## No text is of two classes -/

/-- A duration starts with a digit. -/
theorem not_reads_duration_of_truth (h : truth.reads cs = true) : duration.reads cs = false := by
  rcases of_decide_eq_true h with rfl | rfl <;> rfl

theorem not_unlettered_of_truth (h : truth.reads cs = true) : ¬ Number.Unlettered cs := by
  rcases of_decide_eq_true h with rfl | rfl <;> decide

/-- A duration ends with a letter. -/
theorem not_unlettered_of_duration (h : duration.reads cs = true) : ¬ Number.Unlettered cs := by
  obtain ⟨d, hd⟩ := Option.isSome_iff_exists.mp h
  obtain ⟨⟨hlast, -⟩, -⟩ := Option.ite_none_right_eq_some.mp hd
  rw [Number.Unlettered, hlast]
  decide

theorem unlettered_of_number (h : number.reads cs = true) : Number.Unlettered cs := by
  obtain ⟨x, hx⟩ := Option.isSome_iff_exists.mp h
  exact Number.unlettered_of_binary64? hx

/-- An address is of no other class. -/
theorem eq_address_of_reads (h : address.reads cs = true) (hb : b.reads cs = true) :
    b = address := by
  obtain ⟨i, hi⟩ := Option.isSome_iff_exists.mp h
  have hshape := IpAddress.shape_of_ofText? hi
  cases b with
  | truth => rw [reads_truth, hshape.boolean?_eq_none] at hb; cases hb
  | number => rw [reads, hshape.binary64?_eq_none] at hb; cases hb
  | address => rfl
  | duration => rw [reads, hshape.literal?_eq_none] at hb; cases hb

/-- A number is of no other class. -/
theorem eq_number_of_reads (h : number.reads cs = true) (hb : b.reads cs = true) :
    b = number := by
  have hend := unlettered_of_number h
  cases b with
  | truth => exact absurd hend (not_unlettered_of_truth hb)
  | number => rfl
  | address => exact (eq_address_of_reads hb h).symm
  | duration => exact absurd hend (not_unlettered_of_duration hb)

/-- A truth value is of no other class. -/
theorem eq_truth_of_reads (h : truth.reads cs = true) (hb : b.reads cs = true) : b = truth := by
  cases b with
  | truth => rfl
  | number => exact (eq_number_of_reads hb h).symm
  | address => exact (eq_address_of_reads hb h).symm
  | duration => rw [not_reads_duration_of_truth h] at hb; cases hb

/-- No text is of two classes. -/
theorem eq_of_reads (ha : a.reads cs = true) (hb : b.reads cs = true) : a = b := by
  cases a with
  | truth => exact (eq_truth_of_reads ha hb).symm
  | number => exact (eq_number_of_reads ha hb).symm
  | address => exact (eq_address_of_reads ha hb).symm
  | duration =>
    cases b with
    | truth => exact eq_truth_of_reads hb ha
    | number => exact eq_number_of_reads hb ha
    | address => exact eq_address_of_reads hb ha
    | duration => rfl

/-! ## The kind of a literal -/

/-- `Kind.infer` as one test for each class. -/
theorem infer_eq (cs : List Char) : Kind.infer cs =
    if truth.reads cs then .boolean
    else if number.reads cs then number.kind cs
    else if address.reads cs then .ipAddress
    else if duration.reads cs then .duration
    else .string := by
  rw [reads_truth]
  unfold Kind.infer
  by_cases hsigned : (Number.signed64? cs).isSome = true
  · rw [if_pos hsigned, if_pos (reads_number_of_signed64? hsigned), kind, if_pos hsigned]
  · rw [if_neg hsigned, kind, if_neg hsigned]
    rfl

/-- A literal of a class has the kind of the class. -/
theorem infer_of_reads (h : a.reads cs = true) : Kind.infer cs = a.kind cs := by
  have hunread : ∀ b, b ≠ a → ¬ b.reads cs = true :=
    fun b hb hreads => hb (eq_of_reads hreads h)
  rw [infer_eq]
  cases a with
  | truth => rw [if_pos h, kind]
  | number => rw [if_neg (hunread truth (by decide)), if_pos h]
  | address =>
    rw [if_neg (hunread truth (by decide)), if_neg (hunread number (by decide)), if_pos h, kind]
  | duration =>
    rw [if_neg (hunread truth (by decide)), if_neg (hunread number (by decide)),
      if_neg (hunread address (by decide)), if_pos h, kind]

/-- A literal of no class is a text. -/
theorem infer_of_unread (h : ∀ a : LiteralClass, ¬ a.reads cs = true) :
    Kind.infer cs = .string := by
  rw [infer_eq, if_neg (h truth), if_neg (h number), if_neg (h address), if_neg (h duration)]

/-- The kind of a literal if the classes are tried in the given order. -/
def inferBy (order : List LiteralClass) (cs : List Char) : Kind :=
  ((order.find? (·.reads cs)).map (·.kind cs)).getD .string

/-- The order in which the classes are tried does not matter. -/
theorem inferBy_eq_infer {order : List LiteralClass} (h : ∀ a, a ∈ order) (cs : List Char) :
    inferBy order cs = Kind.infer cs := by
  unfold inferBy
  cases hfind : order.find? (·.reads cs) with
  | some a =>
    have ha := List.find?_some hfind
    exact (infer_of_reads ha).symm
  | none =>
    have hunread : ∀ a : LiteralClass, ¬ a.reads cs = true :=
      fun a => List.find?_eq_none.mp hfind a (h a)
    exact (infer_of_unread hunread).symm

theorem isNumeric_kind (a : LiteralClass) (cs : List Char) :
    (a.kind cs).isNumeric = true ↔ a = number ∨ a = duration := by
  cases a with
  | truth => exact iff_of_false Bool.false_ne_true (by decide)
  | address => exact iff_of_false Bool.false_ne_true (by decide)
  | duration => exact iff_of_true rfl (by decide)
  | number =>
    refine iff_of_true ?_ (by decide)
    rw [kind]
    split <;> rfl

/-- Numbers and durations are the literals with a numeric kind. -/
theorem isNumeric_infer_iff :
    (Kind.infer cs).isNumeric = true ↔ number.reads cs = true ∨ duration.reads cs = true := by
  by_cases h : ∃ a : LiteralClass, a.reads cs = true
  · obtain ⟨a, ha⟩ := h
    rw [infer_of_reads ha, isNumeric_kind]
    constructor
    · rintro (rfl | rfl)
      · exact .inl ha
      · exact .inr ha
    · rintro (hnumber | hduration)
      · exact .inl (eq_of_reads ha hnumber)
      · exact .inr (eq_of_reads ha hduration)
  · have hunread : ∀ a : LiteralClass, ¬ a.reads cs = true := fun a ha => h ⟨a, ha⟩
    rw [infer_of_unread hunread]
    exact iff_of_false Bool.false_ne_true (not_or.mpr ⟨hunread number, hunread duration⟩)

end LiteralClass

/-! ## The order of two literals -/

namespace Value

variable {v w : Value}

theorem isSome_milliseconds? : v.milliseconds?.isSome = true ↔
    LiteralClass.number.reads v.text.toList = true ∨
      LiteralClass.duration.reads v.text.toList = true := by
  have hnumber : LiteralClass.number.reads v.text.toList =
    (Number.binary64? v.text.toList).isSome := rfl
  have hduration : LiteralClass.duration.reads v.text.toList =
    (Duration.literal? v.text.toList).isSome := rfl
  rw [hnumber, hduration, milliseconds?]
  cases Duration.literal? v.text.toList with
  | some d => exact iff_of_true rfl (.inr rfl)
  | none => simp

/-- The milliseconds of a value that has nothing of a duration are its number. -/
theorem milliseconds?_of_not_involved (h : ¬ v.involvesDuration = true) :
    v.milliseconds? = Number.binary64? v.text.toList := by
  have hnone : Duration.literal? v.text.toList = none := by
    unfold involvesDuration at h
    rw [Bool.or_eq_true, not_or] at h
    exact Option.not_isSome_iff_eq_none.mp h.2
  rw [milliseconds?, hnone]

/-- Two values have an order exactly if both have milliseconds. -/
theorem isSome_order? : (v.order? w).isSome = true ↔
    v.milliseconds?.isSome = true ∧ w.milliseconds?.isSome = true := by
  unfold order?
  split
  · cases v.milliseconds? <;> cases w.milliseconds? <;> simp
  · next hinvolved =>
    rw [Bool.or_eq_true, not_or] at hinvolved
    rw [milliseconds?_of_not_involved hinvolved.1, milliseconds?_of_not_involved hinvolved.2]
    split
    · next n m hv hw =>
      -- whole numbers of 64 bits, which are numbers as well
      obtain ⟨x, hx⟩ := Number.exists_binary64?_of_signed64? hv
      obtain ⟨y, hy⟩ := Number.exists_binary64?_of_signed64? hw
      rw [hx, hy]
      simp
    · cases Number.binary64? v.text.toList <;> cases Number.binary64? w.text.toList <;> simp

/-- Two literals have an order exactly if both kinds are numeric. -/
theorem isSome_order?_literal (s t : String) :
    ((literal s).order? (literal t)).isSome = true ↔
      (Kind.infer s.toList).isNumeric = true ∧ (Kind.infer t.toList).isNumeric = true := by
  rw [isSome_order?, isSome_milliseconds?, isSome_milliseconds?,
    LiteralClass.isNumeric_infer_iff, LiteralClass.isNumeric_infer_iff]
  rfl

/-- An operator that asks for an order has no answer for two literals exactly if one of the kinds is
not numeric, and the mismatch names both. -/
theorem compareOperands_literal_eq_error_iff (s t : String) {op : Operator}
    (hop : op.isOrdering = true) {m : Mismatch} :
    compareOperands (.value (some (literal s))) (.value (some (literal t))) op = .error m ↔
      m = .kinds op (Kind.infer s.toList) (Kind.infer t.toList) ∧
        ((Kind.infer s.toList).isNumeric = false ∨ (Kind.infer t.toList).isNumeric = false) := by
  have horder := isSome_order?_literal s t
  rw [compareOperands_value]
  -- a mismatch is the lack of an order, and literals have one if both are numeric
  cases ho : (literal s).order? (literal t) with
  | some o =>
    obtain ⟨hs, ht⟩ := horder.mp (by rw [ho]; rfl)
    rw [compareValues_of_order ho, hs, ht]
    exact iff_of_false (by simp) (by simp)
  | none =>
    have hnone : ¬ ((Kind.infer s.toList).isNumeric = true ∧
        (Kind.infer t.toList).isNumeric = true) := by
      rw [← horder, ho]
      exact Bool.false_ne_true
    rw [compareValues_of_no_order ho hop, Except.error.injEq]
    constructor
    · rintro rfl
      rw [not_and_or, Bool.not_eq_true, Bool.not_eq_true] at hnone
      exact ⟨rfl, hnone⟩
    · rintro ⟨rfl, -⟩
      rfl

/-- What literals are. No text is of two classes, and every whole number of 64 bits is a number. The
kind of a literal is the one of its class, in whatever order the classes are tried. Two literals
have an order, and with it an answer for every operator, unless one of their kinds is not
numeric. -/
theorem literal_classes :
    (∀ (text : String) (a b : LiteralClass), a.reads text.toList = true →
      b.reads text.toList = true → a = b) ∧
    (∀ text : String, (Number.signed64? text.toList).isSome = true →
      LiteralClass.number.reads text.toList = true) ∧
    (∀ order : List LiteralClass, order.Perm LiteralClass.all → ∀ text : String,
      LiteralClass.inferBy order text.toList = Kind.infer text.toList) ∧
    ∀ (s t : String) (op : Operator), op.isOrdering = true → ∀ m : Mismatch,
      compareOperands (.value (some (literal s))) (.value (some (literal t))) op = .error m ↔
        m = .kinds op (Kind.infer s.toList) (Kind.infer t.toList) ∧
          ((Kind.infer s.toList).isNumeric = false ∨
            (Kind.infer t.toList).isNumeric = false) := by
  refine ⟨?_, ?_, ?_, ?_⟩
  · intro text a b ha hb
    exact LiteralClass.eq_of_reads ha hb
  · intro text h
    exact LiteralClass.reads_number_of_signed64? h
  · intro order horder text
    exact LiteralClass.inferBy_eq_infer
      (fun a => horder.mem_iff.mpr (LiteralClass.mem_all a)) text.toList
  · intro s t op hop m
    exact compareOperands_literal_eq_error_iff s t hop

/-- A number with an exponent, which ends like no duration; a whole number with zeros in front; a
duration that is tried first; and a duration beside an address. -/
theorem literal_classes_exponent :
    (LiteralClass.number.reads "1e5".toList = true ∧
      ¬ LiteralClass.duration.reads "1e5".toList = true) ∧
    LiteralClass.number.reads "-0007".toList = true ∧
    LiteralClass.inferBy [.duration, .address, .number, .truth] "1h30m".toList = .duration ∧
    compareOperands (.value (some (literal "1h30m"))) (.value (some (literal "1.0.0.1"))) .lt =
      .error (.kinds .lt .duration .ipAddress) := by
  obtain ⟨hdisjoint, hwhole, horder, hmismatch⟩ := literal_classes
  have hnumber : LiteralClass.number.reads "1e5".toList = true := by decide +kernel
  have hduration : Kind.infer "1h30m".toList = .duration := by decide +kernel
  have haddress : Kind.infer "1.0.0.1".toList = .ipAddress := by decide +kernel
  refine ⟨⟨hnumber, ?_⟩, hwhole "-0007" (by decide +kernel), ?_, ?_⟩
  · intro h
    exact absurd (hdisjoint "1e5" .number .duration hnumber h) (by decide)
  · rw [horder [.duration, .address, .number, .truth] (by decide), hduration]
  · rw [hmismatch "1h30m" "1.0.0.1" .lt rfl, hduration, haddress]
    exact ⟨rfl, .inr rfl⟩

end Value

end HealthRules
