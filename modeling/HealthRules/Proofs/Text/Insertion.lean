import Mathlib
import HealthRules.Explanation
import HealthRules.Proofs.Text.Occurrence

/-!
# Putting values into a text

`Explanation.insertValues` cuts a text at one token after the other. Here is what it makes, said
without cuts: every character of the text keeps its place, and values stand between them
(`annotated`), where the rules of `Annotates` put them. A value stands right behind the leftmost
occurrence of its token in what follows the token before, and a token that does not occur there is
passed over.

* `Annotates.insertValues_eq`: the text with values is the annotated text;
* `Annotates.unique` and `exists_annotates`: the rules put every value in one place;
* `explain_inserts`: both together, and how long the text becomes.
-/

namespace HealthRules.Explanation

/-! ## No value, and one value -/

/-- Without values a text stays as it is. -/
theorem insertValues_of_none {pairs : List (String × Option String)}
    (h : ∀ pair ∈ pairs, pair.2 = none) (text : List Char) : insertValues pairs text = text := by
  induction pairs generalizing text with
  | nil => rfl
  | cons pair pairs ih =>
    obtain ⟨token, value⟩ := pair
    have hvalue : value = none := h (token, value) List.mem_cons_self
    have hpairs : ∀ pair ∈ pairs, pair.2 = none :=
      fun pair hpair => h pair (List.mem_cons_of_mem _ hpair)
    rw [insertValues, hvalue]
    split
    · next before after hcut =>
      rw [shown, List.append_nil, ih hpairs, ← Text.cut?_eq_some hcut]
    · exact ih hpairs text

/-- The value of a token that the text starts with stands right behind it. -/
theorem insertValues_cons (token : String) (value : Option String)
    (pairs : List (String × Option String)) (rest : List Char) :
    insertValues ((token, value) :: pairs) (token.toList ++ rest) =
      token.toList ++ shown value ++ insertValues pairs rest := by
  rw [insertValues, Text.cut?_append_self]
  rfl

/-- The value of a token at the end of the text, if the token cannot start before its place. -/
theorem insertValues_end {token : String} {c : Char} {cs front : List Char}
    (htoken : token.toList = c :: cs) (hc : c ∉ front) (value : Option String) :
    insertValues [(token, value)] (front ++ token.toList) =
      front ++ token.toList ++ shown value := by
  have hcut : Text.cut? token.toList (front ++ token.toList) = some (front, []) := by
    have h := @Text.cut?_append c cs front hc []
    rwa [List.append_nil, ← htoken] at h
  rw [insertValues, hcut]
  simp only [insertValues, List.append_nil]

/-! ## Annotated texts -/

/-- A value in a text, behind as many of its characters as `place` says. -/
structure Note where
  place : Nat
  value : String
deriving DecidableEq, Repr

/-- A note as it stands in the text. -/
def Note.shown (n : Note) : List Char :=
  (" (" ++ n.value ++ ")").toList

theorem Note.shown_eq (i : Nat) (value : String) :
    Note.shown ⟨i, value⟩ = Explanation.shown (some value) := by
  rw [Note.shown, String.toList_append, String.toList_append]
  rfl

theorem Note.length_shown (n : Note) : n.shown.length = n.value.length + 3 := by
  rw [Note.shown, String.length_toList, String.length_append, String.length_append,
    Nat.add_comm (" (".length)]
  rfl

theorem Note.utf8ByteSize_shown (n : Note) :
    (String.ofList n.shown).utf8ByteSize = n.value.utf8ByteSize + 3 := by
  rw [Note.shown, String.ofList_toList, String.utf8ByteSize_append, String.utf8ByteSize_append,
    Nat.add_comm (" (".utf8ByteSize)]
  rfl

/-- The notes at a place, in their order, and the character that stands there. -/
def noted (text : List Char) (notes : List Note) (i : Nat) : List Char :=
  (notes.filter (·.place = i)).flatMap Note.shown ++ text[i]?.toList

/-- A text with notes: every character of the text, each behind the notes for its place, and at last
the notes for the end. -/
def annotated (text : List Char) (notes : List Note) : List Char :=
  (List.range (text.length + 1)).flatMap (noted text notes)

/-- The part of an annotated text from a place on. -/
def annotatedFrom (text : List Char) (notes : List Note) (start : Nat) : List Char :=
  (List.range' start (text.length + 1 - start)).flatMap (noted text notes)

variable {text : List Char} {notes : List Note} {start i : Nat}

/-- The part between two places, and the part behind it. -/
theorem take_append_drop_of_le (text : List Char) (hle : start ≤ i) :
    (text.drop start).take (i - start) ++ text.drop i = text.drop start := by
  have hdrop : (text.drop start).drop (i - start) = text.drop i := by
    rw [List.drop_drop, Nat.add_sub_cancel' hle]
  rw [← hdrop, List.take_append_drop]

theorem annotatedFrom_zero (text : List Char) (notes : List Note) :
    annotatedFrom text notes 0 = annotated text notes := by
  rw [annotatedFrom, annotated, List.range_eq_range', Nat.sub_zero]

theorem flatMap_getElem?_range' (text : List Char) (start n : Nat) :
    ((List.range' start n).flatMap fun i => text[i]?.toList) = (text.drop start).take n := by
  induction n generalizing start with
  | zero => rfl
  | succ n ih =>
    rw [List.range'_succ, List.flatMap_cons, ih]
    rcases Nat.lt_or_ge start text.length with hlt | hge
    · rw [List.drop_eq_getElem_cons hlt, List.getElem?_eq_getElem hlt]
      rfl
    · rw [List.getElem?_eq_none hge, List.drop_eq_nil_of_le hge,
        List.drop_eq_nil_of_le (Nat.le_succ_of_le hge), List.take_nil, List.take_nil]
      rfl

/-- A text without notes. -/
theorem annotatedFrom_nil (text : List Char) (start : Nat) :
    annotatedFrom text [] start = text.drop start := by
  have hplain : ∀ i, noted text [] i = text[i]?.toList := fun _ => rfl
  rw [annotatedFrom, List.flatMap_congr fun i _ => hplain i, flatMap_getElem?_range']
  refine List.take_of_length_le ?_
  rw [List.length_drop]
  omega

/-- In front of the first note stands none. -/
theorem noted_of_lt {j : Nat} (h : ∀ n ∈ notes, i ≤ n.place) (hj : j < i) :
    noted text notes j = text[j]?.toList := by
  have hnone : notes.filter (·.place = j) = [] := by
    rw [List.filter_eq_nil_iff]
    intro n hn hplace
    have hle := h n hn
    rw [of_decide_eq_true hplace] at hle
    omega
  rw [noted, hnone]
  rfl

/-- In front of the first note the text is as it was. -/
theorem annotatedFrom_skip (hstart : start ≤ i) (hi : i ≤ text.length)
    (h : ∀ n ∈ notes, i ≤ n.place) :
    annotatedFrom text notes start =
      (text.drop start).take (i - start) ++ annotatedFrom text notes i := by
  have hplain : ∀ j ∈ List.range' start (i - start), noted text notes j = text[j]?.toList := by
    intro j hj
    have hlt := (List.mem_range'_1.mp hj).2
    exact noted_of_lt h (by omega)
  have hrange : List.range' start (text.length + 1 - start) =
      List.range' start (i - start) ++ List.range' i (text.length + 1 - i) := by
    have happend := @List.range'_append_1 start (i - start) (text.length + 1 - i)
    rw [show start + (i - start) = i by omega,
      show i - start + (text.length + 1 - i) = text.length + 1 - start by omega] at happend
    exact happend.symm
  rw [annotatedFrom, hrange, List.flatMap_append, List.flatMap_congr hplain,
    flatMap_getElem?_range']
  rfl

/-- A first note at the place where the text starts. -/
theorem annotatedFrom_cons (hi : i ≤ text.length) (value : String) :
    annotatedFrom text (⟨i, value⟩ :: notes) i =
      Note.shown ⟨i, value⟩ ++ annotatedFrom text notes i := by
  have hhead : noted text (⟨i, value⟩ :: notes) i =
      Note.shown ⟨i, value⟩ ++ noted text notes i := by
    simp [noted]
  have htail : ∀ j ∈ List.range' (i + 1) (text.length - i),
      noted text (⟨i, value⟩ :: notes) j = noted text notes j := by
    intro j hj
    have hne : ¬ i = j := by
      have hrange := (List.mem_range'_1.mp hj).1
      omega
    simp [noted, hne]
  rw [annotatedFrom, annotatedFrom, show text.length + 1 - i = text.length - i + 1 by omega,
    List.range'_succ, List.flatMap_cons, List.flatMap_cons, hhead, List.flatMap_congr htail,
    List.append_assoc]

/-! ## Where values belong -/

/-- The token stands in the text behind `i` characters. -/
def StandsAt (text token : List Char) (i : Nat) : Prop :=
  i ≤ text.length ∧ token <+: text.drop i

/-- The leftmost occurrence of the token from a place on. -/
structure IsFirstFrom (text token : List Char) (start i : Nat) : Prop where
  start_le : start ≤ i
  stands : StandsAt text token i
  first : ∀ j, start ≤ j → j < i → ¬ StandsAt text token j

/-- The notes that pairs of a token and a value make in a text, from a place on. -/
inductive Annotates (text : List Char) :
    Nat → List (String × Option String) → List Note → Prop
  | nil {start : Nat} : Annotates text start [] []
  /-- A value is noted right behind its token, and there the search goes on. -/
  | valued {start i : Nat} {token value : String} {pairs : List (String × Option String)}
      {notes : List Note} (first : IsFirstFrom text token.toList start i)
      (rest : Annotates text (i + token.length) pairs notes) :
      Annotates text start ((token, some value) :: pairs) (⟨i + token.length, value⟩ :: notes)
  /-- Behind a token without a value the search goes on, too. -/
  | plain {start i : Nat} {token : String} {pairs : List (String × Option String)}
      {notes : List Note} (first : IsFirstFrom text token.toList start i)
      (rest : Annotates text (i + token.length) pairs notes) :
      Annotates text start ((token, none) :: pairs) notes
  /-- A token that does not occur leaves the search where it is. -/
  | absent {start : Nat} {token : String} {value : Option String}
      {pairs : List (String × Option String)} {notes : List Note}
      (unfound : ∀ i, start ≤ i → ¬ StandsAt text token.toList i)
      (rest : Annotates text start pairs notes) :
      Annotates text start ((token, value) :: pairs) notes

theorem IsFirstFrom.unique {token : List Char} {j : Nat} (hi : IsFirstFrom text token start i)
    (hj : IsFirstFrom text token start j) : i = j := by
  rcases Nat.lt_trichotomy i j with hlt | heq | hgt
  · exact absurd hi.stands (hj.first i hi.start_le hlt)
  · exact heq
  · exact absurd hj.stands (hi.first j hj.start_le hgt)

/-- The leftmost occurrence is where the text is cut. -/
theorem IsFirstFrom.cut? {token : List Char} (h : IsFirstFrom text token start i) :
    Text.cut? token (text.drop start) =
      some ((text.drop start).take (i - start), text.drop (i + token.length)) := by
  obtain ⟨hstart, ⟨hi, rest, hrest⟩, hfirst⟩ := h
  rw [Text.cut?_eq_some_iff]
  have hlength : ((text.drop start).take (i - start)).length = i - start := by
    rw [List.length_take, List.length_drop]
    omega
  constructor
  · have hafter : text.drop (i + token.length) = rest := by
      rw [← List.drop_drop, ← hrest, List.drop_left]
    rw [hafter, List.append_assoc, hrest, take_append_drop_of_le text hstart]
  · intro j hj
    rw [hlength] at hj
    rw [List.drop_drop]
    exact fun hp => hfirst (start + j) (by omega) (by omega) ⟨by omega, hp⟩

/-- Where the text is cut, the token has its leftmost occurrence. -/
theorem isFirstFrom_of_cut? {token before after : List Char} (hstart : start ≤ text.length)
    (h : Text.cut? token (text.drop start) = some (before, after)) :
    IsFirstFrom text token start (start + before.length) := by
  obtain ⟨hcs, hfirst⟩ := Text.cut?_eq_some_iff.mp h
  have hlength := congrArg List.length hcs
  rw [List.length_drop, List.length_append, List.length_append] at hlength
  refine ⟨by omega, ⟨by omega, after, ?_⟩, ?_⟩
  · rw [← List.drop_drop, hcs, List.append_assoc, List.drop_left]
  · intro j hj hlt hstands
    have hp := hfirst (j - start) (by omega)
    rw [List.drop_drop, Nat.add_sub_cancel' hj] at hp
    exact hp hstands.2

theorem cut?_eq_none_iff_not_standsAt {token : List Char} (hstart : start ≤ text.length) :
    Text.cut? token (text.drop start) = none ↔ ∀ i, start ≤ i → ¬ StandsAt text token i := by
  constructor
  · rw [Text.cut?_eq_none_iff]
    rintro h i hi ⟨-, hp⟩
    refine h (hp.isInfix.trans ?_)
    rw [← Nat.add_sub_cancel' hi, ← List.drop_drop]
    exact (List.drop_suffix _ _).isInfix
  · intro h
    cases hcut : Text.cut? token (text.drop start) with
    | none => rfl
    | some sides =>
      obtain ⟨before, after⟩ := sides
      have hfirst := isFirstFrom_of_cut? hstart hcut
      exact absurd hfirst.stands (h _ hfirst.start_le)

/-- The search goes on inside the text. -/
theorem IsFirstFrom.bounds {token : String} (h : IsFirstFrom text token.toList start i) :
    start ≤ i + token.length ∧ i + token.length ≤ text.length := by
  obtain ⟨hstart, ⟨hi, hp⟩, -⟩ := h
  have hlength := hp.length_le
  rw [List.length_drop, String.length_toList] at hlength
  omega

/-! ## The annotated text is the one that is made -/

variable {token : String} {pairs : List (String × Option String)}

/-- One token further: the text up to its end, its value, and the rest. -/
theorem insertValues_of_isFirstFrom (h : IsFirstFrom text token.toList start i)
    (value : Option String) (pairs : List (String × Option String)) :
    insertValues ((token, value) :: pairs) (text.drop start) =
      (text.drop start).take (i + token.length - start) ++ shown value ++
        insertValues pairs (text.drop (i + token.length)) := by
  obtain ⟨hle, hend⟩ := h.bounds
  have hstart := h.start_le
  have hcut := h.cut?
  have htext := Text.cut?_eq_some hcut
  rw [String.length_toList] at hcut htext
  have hlength : ((text.drop start).take (i - start) ++ token.toList).length =
      i + token.length - start := by
    rw [List.length_append, List.length_take, List.length_drop, String.length_toList]
    omega
  have htake : (text.drop start).take (i + token.length - start) =
      (text.drop start).take (i - start) ++ token.toList := by
    rw [← List.take_left' hlength, ← htext]
  rw [insertValues, hcut, htake]

/-- No note stands before the place where the search starts. -/
theorem Annotates.le_place (h : Annotates text start pairs notes) :
    ∀ n ∈ notes, start ≤ n.place := by
  induction h with
  | nil => exact List.forall_mem_nil _
  | valued first rest ih =>
    exact List.forall_mem_cons.mpr ⟨first.bounds.1, fun n hn => first.bounds.1.trans (ih n hn)⟩
  | plain first rest ih => exact fun n hn => first.bounds.1.trans (ih n hn)
  | absent unfound rest ih => exact ih

/-- The text with values is the annotated text. The induction follows the search: what is left of
the text is the part from `start` on. -/
theorem Annotates.insertValues_eq (h : Annotates text start pairs notes)
    (hstart : start ≤ text.length) :
    insertValues pairs (text.drop start) = annotatedFrom text notes start := by
  induction h with
  | nil =>
    rw [annotatedFrom_nil]
    rfl
  | valued first rest ih =>
    obtain ⟨hle, hend⟩ := first.bounds
    -- the first note stands where the token ends
    rw [insertValues_of_isFirstFrom first, ih hend, annotatedFrom_skip hle hend,
      annotatedFrom_cons hend, Note.shown_eq, List.append_assoc]
    exact List.forall_mem_cons.mpr ⟨Nat.le_refl _, rest.le_place⟩
  | plain first rest ih =>
    obtain ⟨hle, hend⟩ := first.bounds
    rw [insertValues_of_isFirstFrom first, ih hend, annotatedFrom_skip hle hend rest.le_place,
      shown, List.append_nil]
  | absent unfound rest ih =>
    rw [insertValues, (cut?_eq_none_iff_not_standsAt hstart).mpr unfound, ih hstart]

/-- There is a place for every value. -/
theorem exists_annotates (pairs : List (String × Option String)) (hstart : start ≤ text.length) :
    ∃ notes, Annotates text start pairs notes := by
  induction pairs generalizing start with
  | nil => exact ⟨[], .nil⟩
  | cons pair pairs ih =>
    obtain ⟨token, value⟩ := pair
    cases hcut : Text.cut? token.toList (text.drop start) with
    | none =>
      obtain ⟨notes, hnotes⟩ := ih hstart
      exact ⟨notes, .absent ((cut?_eq_none_iff_not_standsAt hstart).mp hcut) hnotes⟩
    | some sides =>
      obtain ⟨before, after⟩ := sides
      have hfirst := isFirstFrom_of_cut? hstart hcut
      obtain ⟨notes, hnotes⟩ := ih hfirst.bounds.2
      cases value with
      | none => exact ⟨notes, .plain hfirst hnotes⟩
      | some value => exact ⟨_, .valued hfirst hnotes⟩

/-- There is only one. -/
theorem Annotates.unique {notes' : List Note} (h : Annotates text start pairs notes)
    (h' : Annotates text start pairs notes') : notes = notes' := by
  -- the induction is on one of the two: where its first token stands settles the case of the other
  induction h generalizing notes' with
  | nil => cases h'; rfl
  | valued first rest ih =>
    cases h' with
    | valued first' rest' =>
      obtain rfl := first.unique first'
      rw [ih rest']
    | absent unfound _ => exact absurd first.stands (unfound _ first.start_le)
  | plain first rest ih =>
    cases h' with
    | plain first' rest' =>
      obtain rfl := first.unique first'
      exact ih rest'
    | absent unfound _ => exact absurd first.stands (unfound _ first.start_le)
  | absent unfound rest ih =>
    cases h' with
    | valued first' _ => exact absurd first'.stands (unfound _ first'.start_le)
    | plain first' _ => exact absurd first'.stands (unfound _ first'.start_le)
    | absent _ rest' => exact ih rest'

/-! ## What is left of the text -/

/-- The text is still there, in its order. -/
theorem sublist_insertValues (pairs : List (String × Option String)) (text : List Char) :
    text.Sublist (insertValues pairs text) := by
  induction pairs generalizing text with
  | nil => exact List.Sublist.refl text
  | cons pair pairs ih =>
    obtain ⟨token, value⟩ := pair
    rw [insertValues]
    split
    · next before after hcut =>
      have htoken : (before ++ token.toList).Sublist (before ++ token.toList ++ shown value) :=
        List.sublist_append_left _ _
      exact (Text.cut?_eq_some hcut).symm ▸ htoken.append (ih after)
    · exact ih text

/-- A size that adds up grows by the sizes of the notes. -/
theorem Annotates.size_insertValues (size : List Char → Nat)
    (hadd : ∀ xs ys, size (xs ++ ys) = size xs + size ys)
    (h : Annotates text start pairs notes) (hstart : start ≤ text.length) :
    size (insertValues pairs (text.drop start)) =
      size (text.drop start) + (notes.map fun n => size n.shown).sum := by
  induction h with
  | nil => simp [insertValues]
  | @valued start i token value pairs notes first rest ih =>
    obtain ⟨hle, hend⟩ := first.bounds
    have hsplit := congrArg size (take_append_drop_of_le text hle)
    rw [hadd] at hsplit
    rw [insertValues_of_isFirstFrom first, hadd, hadd, ih hend, List.map_cons, List.sum_cons,
      Note.shown_eq]
    omega
  | @plain start i token pairs notes first rest ih =>
    obtain ⟨hle, hend⟩ := first.bounds
    have hsplit := congrArg size (take_append_drop_of_le text hle)
    rw [hadd] at hsplit
    rw [insertValues_of_isFirstFrom first, shown, List.append_nil, hadd, ih hend]
    omega
  | absent unfound rest ih =>
    rw [insertValues, (cut?_eq_none_iff_not_standsAt hstart).mpr unfound, ih hstart]

/-- A condition that failed is shown as its text with values put in and nothing else changed. There
is one way to note the values, and the text with these notes is what is shown; so it is longer by
every noted value and three characters for each. Without values it is the text itself. -/
theorem explain_inserts (text : String) (pairs : List (String × Option String)) :
    (∃! notes, Annotates text.toList 0 pairs notes) ∧
    (∀ notes, Annotates text.toList 0 pairs notes →
      (explain text pairs false false).toList = annotated text.toList notes ∧
      text.toList.Sublist (explain text pairs false false).toList ∧
      (explain text pairs false false).length =
        text.length + (notes.map fun n => n.value.length + 3).sum ∧
      (explain text pairs false false).utf8ByteSize =
        text.utf8ByteSize + (notes.map fun n => n.value.utf8ByteSize + 3).sum) ∧
    ((∀ pair ∈ pairs, pair.2 = none) → explain text pairs false false = text) := by
  have hexplain : explain text pairs false false =
      String.ofList (insertValues pairs text.toList) := rfl
  obtain ⟨notes, hnotes⟩ := exists_annotates pairs (Nat.zero_le text.toList.length)
  refine ⟨⟨notes, hnotes, fun notes' h => h.unique hnotes⟩, ?_, ?_⟩
  · intro notes h
    rw [hexplain, String.toList_ofList]
    refine ⟨?_, sublist_insertValues pairs text.toList, ?_, ?_⟩
    · rw [← annotatedFrom_zero]
      exact h.insertValues_eq (Nat.zero_le _)
    · -- both sizes add up over what is put in: characters here, octets below
      have hsize := h.size_insertValues List.length (fun _ _ => List.length_append) (Nat.zero_le _)
      simp only [Note.length_shown] at hsize
      rwa [List.drop_zero, String.length_toList, ← String.length_ofList] at hsize
    · have hadd : ∀ xs ys : List Char, (String.ofList (xs ++ ys)).utf8ByteSize =
          (String.ofList xs).utf8ByteSize + (String.ofList ys).utf8ByteSize := by
        intro xs ys
        rw [String.ofList_append, String.utf8ByteSize_append]
      have hsize := h.size_insertValues (fun cs => (String.ofList cs).utf8ByteSize) hadd
        (Nat.zero_le _)
      simp only [Note.utf8ByteSize_shown] at hsize
      rwa [List.drop_zero, String.ofList_toList] at hsize
  · intro hnone
    rw [hexplain, insertValues_of_none hnone, String.ofList_toList]

/-- An empty token, a token that is there twice, one that is missing in between, and a value that
holds a token. -/
theorem explain_inserts_repeated :
    Annotates "aa".toList 0 [("", some "x"), ("a", none), ("b", some "y"), ("a", some "(a")]
      [⟨0, "x"⟩, ⟨2, "(a"⟩] ∧
    explain "aa" [("", some "x"), ("a", none), ("b", some "y"), ("a", some "(a")] false false =
      " (x)aa ((a)" ∧
    explain "aa" [("a", none)] false false = "aa" := by
  have hempty : Text.cut? "".toList ("aa".toList.drop 0) = some ([], ['a', 'a']) := by decide
  have hfirst : Text.cut? "a".toList ("aa".toList.drop 0) = some ([], ['a']) := by decide
  have hmissing : Text.cut? "b".toList ("aa".toList.drop 1) = none := by decide
  have hsecond : Text.cut? "a".toList ("aa".toList.drop 1) = some ([], []) := by decide
  have hnotes : Annotates "aa".toList 0
      [("", some "x"), ("a", none), ("b", some "y"), ("a", some "(a")]
      [⟨0, "x"⟩, ⟨2, "(a"⟩] :=
    .valued (isFirstFrom_of_cut? (by decide) hempty)
      (.plain (isFirstFrom_of_cut? (by decide) hfirst)
        (.absent ((cut?_eq_none_iff_not_standsAt (by decide)).mp hmissing)
          (.valued (isFirstFrom_of_cut? (by decide) hsecond) .nil)))
  refine ⟨hnotes, ?_, ?_⟩
  · obtain ⟨htext, -⟩ := (explain_inserts "aa" _).2.1 _ hnotes
    rw [← String.toList_inj, htext]
    decide
  · exact (explain_inserts "aa" [("a", none)]).2.2 (by decide)

end HealthRules.Explanation
