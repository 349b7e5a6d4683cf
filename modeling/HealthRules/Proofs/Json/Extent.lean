import Mathlib
import HealthRules.Proofs.Json.NumberExtent
import HealthRules.Proofs.Json.Parser
import HealthRules.Proofs.Json.StringExtent

/-!
# Where a value ends

A reader of JSON looks at nothing behind what it reads, except that a number ends where nothing
continues it (`IsLocal`). So the octets of a value are read as this value in front of anything else
that does not continue a number. They are a text, and the last character of this text is visible.

This holds of values if it holds of numbers, strings and keys (`LocalReaders`), as it does for the
values of a text (`localReaders`).
-/

namespace HealthRules.Json

open Numeral (Ends ends_cons)
open Text.Utf8 (IsText ascii_of_ofUInt8 eq_of_ofUInt8)

/-! ## Readers -/

/-- Octets of a text whose last character is a visible one of ASCII. -/
def Closed (used : List UInt8) : Prop :=
  ∃ front b, used = front ++ [b] ∧ IsText front ∧ 0x20 < b.toNat ∧ b.toNat < 0x80

/-- Closed octets are read as this in front of everything that does not continue a number. -/
structure Reads {α : Type} (reader : List UInt8 → Except Fault (α × List UInt8))
    (used : List UInt8) (x : α) : Prop where
  closed : Closed used
  read : ∀ ⦃rest : List UInt8⦄, Ends rest → reader (used ++ rest) = .ok (x, rest)

/-- A reader looks at nothing behind what it reads. -/
def IsLocal {α : Type} (reader : List UInt8 → Except Fault (α × List UInt8)) : Prop :=
  ∀ ⦃bytes rest : List UInt8⦄ ⦃x : α⦄, reader bytes = .ok (x, rest) →
    ∃ used, bytes = used ++ rest ∧ Reads reader used x

namespace Closed

variable {used : List UInt8}

theorem ne_nil (h : Closed used) : used ≠ [] := by
  obtain ⟨front, b, rfl, -⟩ := h
  simp

theorem isText (h : Closed used) : IsText used := by
  obtain ⟨front, b, rfl, hfront, -, hb⟩ := h
  exact hfront.append (IsText.nil.cons hb)

/-- Octets that end visibly do so behind any text. -/
theorem append {front : List UInt8} (hfront : IsText front) (h : Closed used) :
    Closed (front ++ used) := by
  obtain ⟨inner, b, rfl, hinner, hb⟩ := h
  exact ⟨front ++ inner, b, (List.append_assoc ..).symm, hfront.append hinner, hb⟩

/-- They do so behind a character of ASCII. -/
theorem cons {b : UInt8} (hb : b.toNat < 0x80) (h : Closed used) : Closed (b :: used) := by
  have hfront : IsText [b] := IsText.nil.cons hb
  exact append hfront h

/-- A visible character ends visibly. -/
theorem singleton {b : UInt8} (hlow : 0x20 < b.toNat) (hhigh : b.toNat < 0x80) : Closed [b] :=
  ⟨[], b, rfl, IsText.nil, hlow, hhigh⟩

end Closed

section Readers

variable {α β : Type} {reader : List UInt8 → Except Fault (α × List UInt8)}

/-- What is made of a result does not matter. -/
theorem IsLocal.map (h : IsLocal reader) (f : α → β) :
    IsLocal fun bytes => (reader bytes).map fun r => (f r.1, r.2) := by
  intro bytes rest y hread
  obtain ⟨⟨x, rest'⟩, hx, heq⟩ := map_eq_ok_iff.mp hread
  cases heq
  obtain ⟨used, hbytes, hclosed, hused⟩ := h hx
  refine ⟨used, hbytes, hclosed, fun rest' h' => ?_⟩
  rw [hused h']
  rfl

end Readers

/-! ## Numbers, strings and words -/

/-- A number is the digits that were taken, and ends with the last of them. -/
theorem isLocal_number (negative : Bool) : IsLocal (Numeral.read negative) := by
  intro bytes rest n h
  obtain ⟨used, hbytes, ⟨hascii, front, d, rfl, hd⟩, hread⟩ := Numeral.takes_read h
  have hrange := Numeral.toNat_of_isDigit hd
  refine ⟨front ++ [d], hbytes, ⟨front, d, rfl, ?_, by omega, by omega⟩, hread⟩
  exact IsText.of_ascii fun b hb => hascii b (List.mem_append_left _ hb)

/-- A string ends with its closing quote, so nothing behind it matters. -/
theorem isLocal_text : IsLocal Quoted.text := by
  intro bytes rest s h
  obtain ⟨front, hbytes, htext, hread⟩ := Quoted.exists_of_text h
  refine ⟨front ++ [0x22], by rw [hbytes, List.append_assoc]; rfl,
    ⟨front, 0x22, rfl, htext, by decide, by decide⟩, fun rest' _ => ?_⟩
  rw [List.append_assoc]
  exact hread rest'

/-- A word is its letters. -/
theorem exists_of_word {cs : List Char} {bytes rest : List UInt8} (h : word cs bytes = .ok rest) :
    ∃ used, bytes = used ++ rest ∧ used.map Char.ofUInt8 = cs ∧
      ∀ rest', word cs (used ++ rest') = .ok rest' := by
  induction cs generalizing bytes with
  | nil =>
    cases h
    exact ⟨[], rfl, rfl, fun rest' => rfl⟩
  | cons c cs ih =>
    cases bytes with
    | nil => cases h
    | cons b bs =>
      rw [word] at h
      split_ifs at h with hb
      obtain ⟨used, rfl, hmap, hread⟩ := ih h
      refine ⟨b :: used, rfl, by rw [List.map_cons, hb, hmap], fun rest' => ?_⟩
      rw [List.cons_append, word, if_pos hb, hread]

/-- A word of visible characters is its letters, and no reader looks behind the last. -/
theorem isLocal_word {α : Type} (x : α) (cs : List Char) (hne : cs ≠ [])
    (hcs : ∀ c ∈ cs, 0x20 < c.toNat ∧ c.toNat < 0x80) :
    IsLocal fun bytes => (word cs bytes).map fun rest => (x, rest) := by
  intro bytes rest y h
  obtain ⟨rest', hword, heq⟩ := map_eq_ok_iff.mp h
  cases heq
  obtain ⟨used, hbytes, rfl, hread⟩ := exists_of_word hword
  have hused : ∀ b ∈ used, 0x20 < b.toNat ∧ b.toNat < 0x80 := fun b hb =>
    hcs _ (List.mem_map_of_mem hb)
  have hlast : used ≠ [] := by simpa using hne
  refine ⟨used, hbytes, ?_, fun rest' _ => by rw [hread]; rfl⟩
  refine ⟨used.dropLast, used.getLast hlast, (List.dropLast_append_getLast hlast).symm, ?_,
    hused _ (List.getLast_mem hlast)⟩
  exact IsText.of_ascii fun b hb => (hused b (List.mem_of_mem_dropLast hb)).2

/-! ## White space -/

theorem ascii_of_isBlank {b : UInt8} (h : isBlank b = true) : b.toNat < 0x80 := by
  simp only [isBlank, Bool.or_eq_true, beq_iff_eq] at h
  rcases h with ((rfl | rfl) | rfl) | rfl <;> decide

section Blank

variable {front : List UInt8} (hfront : ∀ b ∈ front, isBlank b = true)

include hfront

/-- White space is a text. -/
theorem isText_of_isBlank : IsText front :=
  IsText.of_ascii fun b hb => ascii_of_isBlank (hfront b hb)

/-- All white space is skipped, also if it comes in two parts. -/
theorem skipBlank_append (bytes : List UInt8) : skipBlank (front ++ bytes) = skipBlank bytes :=
  List.dropWhile_append_of_pos hfront

/-- A value may have white space in front. -/
theorem value_append {κ α : Type} (D : Denotation κ α) (depth : Nat) (bytes : List UInt8) :
    value D depth (front ++ bytes) = value D depth bytes := by
  rw [← value_skip, skipBlank_append hfront, value_skip]

/-- White space continues no number. -/
theorem ends_append {bytes : List UInt8} (h : Ends bytes) : Ends (front ++ bytes) := by
  cases front with
  | nil => exact h
  | cons b front =>
    have hb := hfront b List.mem_cons_self
    simp only [isBlank, Bool.or_eq_true, beq_iff_eq] at hb
    rcases hb with ((rfl | rfl) | rfl) | rfl <;> exact ends_cons (by decide) _

end Blank

/-- Octets are white space and what is left when it is skipped. -/
theorem exists_blank (bytes : List UInt8) :
    ∃ front, bytes = front ++ skipBlank bytes ∧ ∀ b ∈ front, isBlank b = true :=
  ⟨bytes.takeWhile isBlank, List.takeWhile_append_dropWhile.symm,
    fun _ hb => List.mem_takeWhile_imp hb⟩

/-- What is left behind white space does not begin with more of it. -/
theorem isBlank_of_skipBlank {b : UInt8} {bytes bs : List UInt8} (h : skipBlank bytes = b :: bs) :
    isBlank b = false := by
  have hhead := List.head?_dropWhile_not isBlank bytes
  rw [← skipBlank, h] at hhead
  simpa using hhead

/-! ## Lists and objects -/

/-- What stands behind an element or a member, up to the closing bracket or brace: it continues no
number, and is read by everyone who takes as many turns as it has octets, and one more. -/
structure Continues {α : Type} (reader : Nat → List UInt8 → Except Fault (α × List UInt8))
    (used : List UInt8) (x : α) : Prop where
  closed : Closed used
  ends : ∀ rest : List UInt8, Ends (used ++ rest)
  read : ∀ {n : Nat} (rest : List UInt8), used.length < n → reader n (used ++ rest) = .ok (x, rest)

/-- White space may stand in front of what is read, if the reader skips it. -/
theorem Reads.append {α : Type} {reader : List UInt8 → Except Fault (α × List UInt8)}
    {front used : List UInt8} {x : α} (hfront : ∀ b ∈ front, isBlank b = true)
    (hskip : ∀ bytes, reader (front ++ bytes) = reader bytes) (h : Reads reader used x) :
    Reads reader (front ++ used) x := by
  refine ⟨h.closed.append (isText_of_isBlank hfront), fun rest hrest => ?_⟩
  rw [List.append_assoc, hskip]
  exact h.read hrest

/-- White space may also stand in front of a comma or a bracket. -/
theorem Continues.append {α : Type} {reader : Nat → List UInt8 → Except Fault (α × List UInt8)}
    {front used : List UInt8} {x : α} (hfront : ∀ b ∈ front, isBlank b = true)
    (hskip : ∀ n bytes, reader n (front ++ bytes) = reader n bytes)
    (h : Continues reader used x) : Continues reader (front ++ used) x := by
  refine ⟨h.closed.append (isText_of_isBlank hfront), fun rest => ?_, fun rest hn => ?_⟩
  · rw [List.append_assoc]
    exact ends_append hfront (h.ends rest)
  · rw [List.length_append] at hn
    rw [List.append_assoc, hskip]
    exact h.read rest (by omega)

/-- What begins with an octet that continues no number is read, if one turn is enough for this octet
and one for each of the others. -/
theorem Continues.cons {α : Type} {reader : Nat → List UInt8 → Except Fault (α × List UInt8)}
    {b : UInt8} {used : List UInt8} {x : α} (hends : ∀ rest, Ends (b :: rest))
    (hclosed : Closed (b :: used))
    (hread : ∀ {n : Nat} (rest : List UInt8), used.length ≤ n →
      reader (n + 1) (b :: (used ++ rest)) = .ok (x, rest)) : Continues reader (b :: used) x := by
  refine ⟨hclosed, fun rest => hends _, fun {n} rest hn => ?_⟩
  rw [List.length_cons] at hn
  obtain ⟨n, rfl⟩ := Nat.exists_eq_add_one_of_ne_zero (Nat.ne_zero_of_lt hn)
  exact hread rest (by omega)

section Parts

variable {κ α : Type} {D : Denotation κ α} {depth n : Nat} {bytes rest : List UInt8} {x : α}
  {xs : List α} {ms : List (κ × α)}

/-- What follows an element may have white space in front. -/
theorem elements_append (element : List UInt8 → Except Fault (α × List UInt8))
    {front : List UInt8} (hfront : ∀ b ∈ front, isBlank b = true) (n : Nat) (bytes : List UInt8) :
    elements element n (front ++ bytes) = elements element n bytes := by
  cases n with
  | zero => rfl
  | succ n => rw [elements, elements, skipBlank_append hfront]

/-- What follows a member may have white space in front. -/
theorem members_append (element : List UInt8 → Except Fault (α × List UInt8))
    (key : List UInt8 → Except Fault (κ × List UInt8)) {front : List UInt8}
    (hfront : ∀ b ∈ front, isBlank b = true) (n : Nat) (bytes : List UInt8) :
    members element key n (front ++ bytes) = members element key n bytes := by
  cases n with
  | zero => rfl
  | succ n => rw [members, members, skipBlank_append hfront]

variable (hvalue : IsLocal (value D depth))

include hvalue

/-- The elements behind one that was read end with the bracket. -/
theorem continues_elements (h : elements (value D depth) n bytes = .ok (xs, rest)) :
    ∃ used, bytes = used ++ rest ∧ Continues (elements (value D depth)) used xs := by
  -- one turn for each element and one for the bracket
  induction n generalizing bytes xs with
  | zero => cases h
  | succ n ih =>
    obtain ⟨front, hbytes, hfront⟩ := exists_blank bytes
    rcases elements_cases h with ⟨hskip, rfl⟩ | ⟨_, _, x, xs, _, hn, hskip, rfl, hx, hxs⟩
    · rw [hbytes, hskip]
      refine ⟨front ++ [0x5D], List.append_cons ..,
        .append hfront (elements_append _ hfront) (.cons (ends_cons (by decide)) ?_ ?_)⟩
      · exact .singleton (by decide) (by decide)
      · exact fun rest _ => rfl
    · cases hn
      rw [value_skip] at hx
      obtain ⟨first, rfl, hfirst⟩ := hvalue hx
      obtain ⟨others, rfl, hothers⟩ := ih hxs
      rw [hbytes, hskip]
      refine ⟨front ++ 0x2C :: (first ++ others), by simp,
        .append hfront (elements_append _ hfront) (.cons (ends_cons (by decide)) ?_ ?_)⟩
      · exact (hothers.closed.append hfirst.closed.isText).cons (by decide)
      · intro n rest hn
        have hpos := List.length_pos_of_ne_nil hfirst.closed.ne_nil
        rw [List.length_append] at hn
        have hmore := hothers.read (n := n) rest (by omega)
        rw [List.append_assoc]
        exact elements_cons (hfirst.read (hothers.ends rest)) hmore

/-- A list ends with its bracket. -/
theorem isLocal_listItems : IsLocal (listItems (value D depth)) := by
  intro bytes rest xs h
  obtain ⟨front, hbytes, hfront⟩ := exists_blank bytes
  rcases listItems_cases h with ⟨hskip, rfl⟩ | ⟨x, xs, _, rfl, hx, hxs⟩
  · rw [hbytes, hskip]
    refine ⟨front ++ [0x5D], List.append_cons ..,
      .append hfront (fun bytes => ?_) ⟨.singleton (by decide) (by decide), fun rest _ => rfl⟩⟩
    rw [listItems, listItems, skipBlank_append hfront]
  · rw [value_skip] at hx
    obtain ⟨first, rfl, hfirst⟩ := hvalue hx
    obtain ⟨others, rfl, hothers⟩ := continues_elements hvalue hxs
    refine ⟨first ++ others, (List.append_assoc ..).symm,
      hothers.closed.append hfirst.closed.isText, fun rest _ => ?_⟩
    rw [List.append_assoc]
    refine listItems_cons (hfirst.read (hothers.ends rest)) (hothers.read rest ?_)
    rw [List.length_append]
    omega

variable {key : List UInt8 → Except Fault (κ × List UInt8)} (hkey : IsLocal key)

include hkey

/-- A member ends where its value ends: the key and the colon have an end of their own. -/
theorem isLocal_member : IsLocal (member (value D depth) key) := by
  intro bytes rest m h
  obtain ⟨afterName, _, hread, hskip, hx⟩ := member_cases h
  obtain ⟨front, hblank, hfront⟩ := exists_blank afterName
  obtain ⟨name, rfl, hname⟩ := hkey hread
  obtain ⟨item, rfl, hitem⟩ := hvalue hx
  rw [hblank, hskip]
  refine ⟨name ++ (front ++ 0x3A :: item), by simp, ?_, fun rest hrest => ?_⟩
  · exact ((hitem.closed.cons (by decide)).append (isText_of_isBlank hfront)).append
      hname.closed.isText
  · have hcolon : skipBlank (front ++ 0x3A :: (item ++ rest)) = 0x3A :: (item ++ rest) := by
      rw [skipBlank_append hfront]
      rfl
    have hends : Ends (front ++ 0x3A :: (item ++ rest)) :=
      ends_append hfront (ends_cons (by decide) _)
    rw [List.append_assoc, List.append_assoc, List.cons_append]
    exact member_eq (hname.read hends) hcolon (hitem.read hrest)

/-- The members behind one that was read end with the brace. -/
theorem continues_members (h : members (value D depth) key n bytes = .ok (ms, rest)) :
    ∃ used, bytes = used ++ rest ∧ Continues (members (value D depth) key) used ms := by
  induction n generalizing bytes ms with
  | zero => cases h
  | succ n ih =>
    -- blanks may stand in front of the brace and the comma, and behind the comma
    obtain ⟨front, hbytes, hfront⟩ := exists_blank bytes
    rcases members_cases h with ⟨hskip, rfl⟩ | ⟨_, afterComma, _, m, ms, _, hn, hskip, hquote, rfl,
      hm, hms⟩
    · rw [hbytes, hskip]
      refine ⟨front ++ [0x7D], List.append_cons ..,
        .append hfront (members_append _ _ hfront) (.cons (ends_cons (by decide)) ?_ ?_)⟩
      · exact .singleton (by decide) (by decide)
      · exact fun rest _ => rfl
    · cases hn
      obtain ⟨space, hblank, hspace⟩ := exists_blank afterComma
      obtain ⟨first, rfl, hfirst⟩ := isLocal_member hvalue hkey hm
      obtain ⟨others, rfl, hothers⟩ := ih hms
      rw [hbytes, hskip, hblank, hquote]
      refine ⟨front ++ 0x2C :: (space ++ 0x22 :: (first ++ others)), by simp,
        .append hfront (members_append _ _ hfront) (.cons (ends_cons (by decide)) ?_ ?_)⟩
      · exact (((hothers.closed.append hfirst.closed.isText).cons (by decide)).append
          (isText_of_isBlank hspace)).cons (by decide)
      · intro n rest hn
        simp only [List.length_cons, List.length_append] at hn
        have hmore := hothers.read (n := n) rest (by omega)
        have hopen : skipBlank (space ++ 0x22 :: (first ++ (others ++ rest))) =
            0x22 :: (first ++ (others ++ rest)) := by
          rw [skipBlank_append hspace]
          rfl
        rw [List.append_assoc, List.cons_append, List.append_assoc]
        exact members_cons hopen (hfirst.read (hothers.ends rest)) hmore

/-- An object ends with its brace. -/
theorem isLocal_objectMembers : IsLocal (objectMembers (value D depth) key) := by
  intro bytes rest ms h
  obtain ⟨front, hbytes, hfront⟩ := exists_blank bytes
  have hskips : ∀ bytes, objectMembers (value D depth) key (front ++ bytes) =
      objectMembers (value D depth) key bytes := by
    intro bytes
    rw [objectMembers, objectMembers, skipBlank_append hfront]
  rcases objectMembers_cases h with ⟨hskip, rfl⟩ | ⟨_, m, ms, _, hskip, rfl, hm, hms⟩
  · rw [hbytes, hskip]
    exact ⟨front ++ [0x7D], List.append_cons ..,
      .append hfront hskips ⟨.singleton (by decide) (by decide), fun rest _ => rfl⟩⟩
  · obtain ⟨first, rfl, hfirst⟩ := isLocal_member hvalue hkey hm
    obtain ⟨others, rfl, hothers⟩ := continues_members hvalue hkey hms
    rw [hbytes, hskip]
    refine ⟨front ++ 0x22 :: (first ++ others), by simp,
      .append hfront hskips ⟨?_, fun rest _ => ?_⟩⟩
    · exact (hothers.closed.append hfirst.closed.isText).cons (by decide)
    · rw [List.cons_append, List.append_assoc]
      refine objectMembers_cons rfl (hfirst.read (hothers.ends rest)) (hothers.read rest ?_)
      rw [List.length_append]
      omega

end Parts

/-! ## Values -/

/-- A reader behind one octet. -/
theorem IsLocal.cons {α : Type} {reader inner : List UInt8 → Except Fault (α × List UInt8)}
    (hinner : IsLocal inner) {b : UInt8} (hb : b.toNat < 0x80)
    (hreader : ∀ bytes, reader (b :: bytes) = inner bytes) {bytes rest : List UInt8} {x : α}
    (h : reader (b :: bytes) = .ok (x, rest)) :
    ∃ used, b :: bytes = used ++ rest ∧ Reads reader used x := by
  rw [hreader] at h
  obtain ⟨used, rfl, hused⟩ := hinner h
  refine ⟨b :: used, rfl, hused.closed.cons hb, fun rest hrest => ?_⟩
  rw [List.cons_append, hreader]
  exact hused.read hrest

/-- A denotation whose readers look at nothing behind what they read. -/
structure LocalReaders {κ α : Type} (D : Denotation κ α) : Prop where
  number : ∀ negative, IsLocal (D.number negative)
  string : IsLocal D.string
  key : IsLocal D.key

/-- Numbers, strings and keys of a value end where they end. -/
theorem localReaders : LocalReaders denotation where
  number negative := (isLocal_number negative).map Json.number
  string := isLocal_text.map Json.string
  key := isLocal_text

section Values

variable {κ α : Type} {D : Denotation κ α} {depth : Nat} {b : UInt8} {bytes rest : List UInt8}
  {x : α}

/-- A value begins with a visible character of ASCII. -/
theorem visible_of_value {r : α × List UInt8} (hb : isBlank b = false)
    (h : value D depth (b :: bytes) = .ok r) : 0x20 < b.toNat ∧ b.toNat < 0x80 := by
  unfold value at h
  rw [skipBlank_cons hb] at h
  dsimp only at h
  split at h
  case h_8 =>
    split_ifs at h with hdigit
    have hrange := Numeral.toNat_of_isDigit hdigit
    omega
  all_goals
    rename_i hchar
    rw [← Text.Utf8.toNat_ofUInt8, hchar]
    decide

/-- A value without white space in front ends where it ends. -/
theorem exists_of_value_cons (hD : LocalReaders D)
    (hinner : ∀ depth' < depth, IsLocal (value D depth')) (hb : isBlank b = false)
    (h : value D depth (b :: bytes) = .ok (x, rest)) :
    ∃ used, b :: bytes = used ++ rest ∧ Reads (value D depth) used x := by
  have hvalue := h
  unfold value at h
  rw [skipBlank_cons hb] at h
  dsimp only at h
  split at h
  case h_1 hchar =>
    obtain rfl : b = 0x6E := eq_of_ofUInt8 hchar
    exact (isLocal_word D.null ['u', 'l', 'l'] (by decide) (by simp)).cons (by decide)
      (fun bytes => by unfold value; rfl) hvalue
  case h_2 hchar =>
    obtain rfl : b = 0x74 := eq_of_ofUInt8 hchar
    exact (isLocal_word (D.bool true) ['r', 'u', 'e'] (by decide) (by simp)).cons
      (by decide) (fun bytes => by unfold value; rfl) hvalue
  case h_3 hchar =>
    obtain rfl : b = 0x66 := eq_of_ofUInt8 hchar
    exact (isLocal_word (D.bool false) ['a', 'l', 's', 'e'] (by decide) (by simp)).cons
      (by decide) (fun bytes => by unfold value; rfl) hvalue
  case h_4 hchar =>
    obtain rfl : b = 0x22 := eq_of_ofUInt8 hchar
    exact hD.string.cons (by decide) (value_quote D depth) hvalue
  case h_5 hchar =>
    obtain rfl : b = 0x2D := eq_of_ofUInt8 hchar
    exact (hD.number true).cons (by decide) (value_minus D depth) hvalue
  case h_6 hchar =>
    obtain rfl : b = 0x5B := eq_of_ofUInt8 hchar
    cases depth with
    | zero => cases h
    | succ depth =>
      have hitems := isLocal_listItems (hinner depth (Nat.lt_succ_self depth))
      exact (hitems.map D.array).cons (by decide) (value_bracket D depth) hvalue
  case h_7 hchar =>
    obtain rfl : b = 0x7B := eq_of_ofUInt8 hchar
    cases depth with
    | zero => cases h
    | succ depth =>
      have hmembers := isLocal_objectMembers (hinner depth (Nat.lt_succ_self depth)) hD.key
      exact (hmembers.map D.object).cons (by decide) (value_brace D depth) hvalue
  case h_8 =>
    split_ifs at h with hdigit
    obtain ⟨used, hused, hread⟩ := hD.number false h
    refine ⟨used, hused, hread.closed, fun rest hrest => ?_⟩
    -- the first digit belongs to what the reader of numbers takes
    obtain ⟨d, used, rfl⟩ := List.exists_cons_of_ne_nil hread.closed.ne_nil
    obtain rfl : b = d := (List.cons.inj hused).1
    rw [List.cons_append, value_digit D depth hdigit, ← List.cons_append]
    exact hread.read hrest

/-- Values end where they end. -/
theorem isLocal_value (hD : LocalReaders D) (depth : Nat) : IsLocal (value D depth) := by
  -- what is inside a list or an object is read with one less depth
  induction depth using Nat.strong_induction_on with
  | _ depth ih =>
    intro bytes rest x h
    obtain ⟨front, hbytes, hfront⟩ := exists_blank bytes
    cases hskip : skipBlank bytes with
    | nil =>
      unfold value at h
      rw [hskip] at h
      cases h
    | cons b bs =>
      have hb := isBlank_of_skipBlank hskip
      rw [← value_skip, hskip] at h
      obtain ⟨used, hbs, hused⟩ := exists_of_value_cons hD ih hb h
      rw [hbytes, hskip, hbs]
      exact ⟨front ++ used, (List.append_assoc ..).symm,
        hused.append hfront (value_append hfront D depth)⟩

end Values

end HealthRules.Json
