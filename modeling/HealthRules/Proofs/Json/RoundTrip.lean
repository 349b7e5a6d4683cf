import Mathlib
import HealthRules.Json.Document
import HealthRules.Json.Parser
import HealthRules.Json.Printer
import HealthRules.Proofs.Json.Numeral
import HealthRules.Proofs.Json.Quoted

/-!
# Reading values back

A value is read back from its compact text, in front of anything that does not continue a number
(`value_compact`), if its numbers are such as a reader gives and it is not nested too deep (`Fits`).
Every value that was read is of this kind (`fits_of_value`). What it is read back as is its `image`:
lists and objects with the images of their parts in the same order.

All this is said of any denotation that takes numbers, strings and keys for what they were written
from (`Faithful`). The denotations of values and of documents do.
-/

namespace HealthRules.Json

open Text.Utf8 (encode encode_cons_append)

/-! ## One value -/

theorem skipBlank_cons {b : UInt8} (hb : isBlank b = false) (bytes : List UInt8) :
    skipBlank (b :: bytes) = b :: bytes := by
  rw [skipBlank, List.dropWhile_cons, hb, if_neg Bool.false_ne_true]

section
variable {κ α : Type} (D : Denotation κ α)

/-- A reader of values skips white space itself, so it does not matter who does. -/
theorem value_skip (depth : Nat) (bytes : List UInt8) :
    value D depth (skipBlank bytes) = value D depth bytes := by
  have hskip : skipBlank (skipBlank bytes) = skipBlank bytes := by
    unfold skipBlank
    exact List.dropWhile_idempotent isBlank bytes
  unfold value
  rw [hskip]

/-- Behind a minus the reader of numbers takes over, and likewise behind each of the next
characters. -/
theorem value_minus (depth : Nat) (bytes : List UInt8) :
    value D depth (0x2D :: bytes) = D.number true bytes := by
  unfold value
  rfl

theorem value_quote (depth : Nat) (bytes : List UInt8) :
    value D depth (0x22 :: bytes) = D.string bytes := by
  unfold value
  rfl

/-- A digit in front belongs to the number, so it is left for the reader of numbers. -/
theorem value_digit (depth : Nat) {b : UInt8} (hb : Numeral.isDigit b = true)
    (bytes : List UInt8) : value D depth (b :: bytes) = D.number false (b :: bytes) := by
  rw [Numeral.isDigit] at hb
  have hblank : isBlank b = false := by
    rw [← Bool.not_eq_true]
    intro h
    simp only [isBlank, Bool.or_eq_true, beq_iff_eq] at h
    rcases h with ((rfl | rfl) | rfl) | rfl <;> exact absurd hb (by decide)
  unfold value
  rw [skipBlank_cons hblank]
  dsimp only
  split
  -- a digit is none of the characters that begin another value
  any_goals
    rename_i h
    rw [h] at hb
    exact absurd hb (by decide)
  rw [if_pos hb]

/-- Behind an opening bracket the items are read, with one less depth. -/
theorem value_bracket (depth : Nat) (bytes : List UInt8) :
    value D (depth + 1) (0x5B :: bytes) =
      (listItems (value D depth) bytes).map fun (xs, rest) => (D.array xs, rest) := by
  conv_lhs => unfold value
  rfl

/-- Behind an opening brace the members are read, with one less depth. -/
theorem value_brace (depth : Nat) (bytes : List UInt8) :
    value D (depth + 1) (0x7B :: bytes) =
      (objectMembers (value D depth) D.key bytes).map fun (xs, rest) => (D.object xs, rest) := by
  conv_lhs => unfold value
  rfl

variable {D}

/-- A value does not begin with a closing bracket. -/
theorem exists_of_value_eq_ok {depth : Nat} {bytes : List UInt8} {r : α × List UInt8}
    (h : value D depth bytes = .ok r) :
    ∃ b bs, skipBlank bytes = b :: bs ∧ Char.ofUInt8 b ≠ ']' ∧ value D depth (b :: bs) = .ok r := by
  cases hskip : skipBlank bytes with
  | nil =>
    unfold value at h
    rw [hskip] at h
    cases h
  | cons b bs =>
    rw [← value_skip, hskip] at h
    refine ⟨b, bs, rfl, ?_, h⟩
    intro hb
    obtain rfl : b = 0x5D := Text.Utf8.eq_of_ofUInt8 hb
    unfold value at h
    cases h

/-! ## Lists -/

variable {depth n : Nat} {bytes rest rest' : List UInt8} {x : α} {xs : List α}

/-- Behind a comma stands another element, which takes one turn. -/
theorem elements_cons (hvalue : value D depth bytes = .ok (x, rest))
    (hmore : elements (value D depth) n rest = .ok (xs, rest')) :
    elements (value D depth) (n + 1) (0x2C :: bytes) = .ok (x :: xs, rest') := by
  obtain ⟨b, bs, hskip, hb, hvalue⟩ := exists_of_value_eq_ok hvalue
  have hcomma : skipBlank (0x2C :: bytes) = 0x2C :: bytes := rfl
  rw [elements, hcomma]
  dsimp only
  rw [if_neg (by decide), if_pos (by decide), hskip]
  dsimp only
  rw [if_neg hb, hvalue]
  show (elements (value D depth) n rest).bind _ = _
  rw [hmore]
  rfl

/-- The first item of a list has no comma in front; the others are read as elements. -/
theorem listItems_cons (hvalue : value D depth bytes = .ok (x, rest))
    (hmore : elements (value D depth) (rest.length + 1) rest = .ok (xs, rest')) :
    listItems (value D depth) bytes = .ok (x :: xs, rest') := by
  obtain ⟨b, bs, hskip, hb, hvalue⟩ := exists_of_value_eq_ok hvalue
  rw [listItems, hskip]
  dsimp only
  rw [if_neg hb, hvalue]
  show (elements (value D depth) (rest.length + 1) rest).bind _ = _
  rw [hmore]
  rfl

/-! ## Objects -/

variable {key : List UInt8 → Except Fault (κ × List UInt8)} {name : κ}
  {afterName afterColon afterQuote : List UInt8} {ms : List (κ × α)}

/-- A member is a key, a colon and a value. -/
theorem member_eq (hkey : key bytes = .ok (name, afterName))
    (hcolon : skipBlank afterName = 0x3A :: afterColon)
    (hvalue : value D depth afterColon = .ok (x, rest)) :
    member (value D depth) key bytes = .ok ((name, x), rest) := by
  unfold member
  rw [hkey]
  dsimp only [bind, Except.bind]
  rw [hcolon]
  dsimp only
  rw [if_pos (by decide), hvalue]
  rfl

/-- Behind a comma and a quote stands another member, which takes one turn. -/
theorem members_cons (hquote : skipBlank bytes = 0x22 :: afterQuote)
    (hmember : member (value D depth) key afterQuote = .ok ((name, x), rest))
    (hmore : members (value D depth) key n rest = .ok (ms, rest')) :
    members (value D depth) key (n + 1) (0x2C :: bytes) = .ok ((name, x) :: ms, rest') := by
  have hcomma : skipBlank (0x2C :: bytes) = 0x2C :: bytes := rfl
  rw [members, hcomma]
  dsimp only
  rw [if_neg (by decide), if_pos (by decide), hquote]
  show (member (value D depth) key afterQuote).bind _ = _
  rw [hmember]
  show (members (value D depth) key n rest).bind _ = _
  rw [hmore]
  rfl

/-- The first member of an object has no comma in front; the others are read as members. -/
theorem objectMembers_cons (hquote : skipBlank bytes = 0x22 :: afterQuote)
    (hmember : member (value D depth) key afterQuote = .ok ((name, x), rest))
    (hmore : members (value D depth) key (rest.length + 1) rest = .ok (ms, rest')) :
    objectMembers (value D depth) key bytes = .ok ((name, x) :: ms, rest') := by
  unfold objectMembers
  rw [hquote]
  show (member (value D depth) key afterQuote).bind _ = _
  rw [hmember]
  show (members (value D depth) key (rest.length + 1) rest).bind _ = _
  rw [hmore]
  rfl

end

/-! ## Values that can be read back -/

/-- Values that can be read back with at most so many lists and objects open at once. -/
inductive Fits : Nat → Json → Prop
  | null {depth : Nat} : Fits depth .null
  | bool {depth : Nat} (b : Bool) : Fits depth (.bool b)
  | number {depth : Nat} {n : Numeral} (h : n.Sound) : Fits depth (.number n)
  | string {depth : Nat} (s : String) : Fits depth (.string s)
  | array {depth : Nat} {items : List Json} (h : ∀ item ∈ items, Fits depth item) :
    Fits (depth + 1) (.array items)
  | object {depth : Nat} {members : List (String × Json)} (h : ∀ m ∈ members, Fits depth m.2) :
    Fits (depth + 1) (.object members)

/-- What a denotation makes of the texts of numbers, strings and keys. -/
structure Faithful {κ α : Type} (D : Denotation κ α) where
  ofNumber : Numeral → α
  ofString : String → α
  ofKey : String → κ
  number : ∀ {n : Numeral} {rest : List UInt8}, n.Sound → Numeral.Ends rest →
    D.number n.isNegative (encode n.magnitude ++ rest) = .ok (ofNumber n, rest)
  string : ∀ (s : String) (rest : List UInt8),
    D.string (encode (s.toList.flatMap Quoted.quoteChar ++ ['"']) ++ rest) =
      .ok (ofString s, rest)
  key : ∀ (s : String) (rest : List UInt8),
    D.key (encode (s.toList.flatMap Quoted.quoteChar ++ ['"']) ++ rest) = .ok (ofKey s, rest)

namespace Faithful

variable {κ α : Type} {D : Denotation κ α} (F : Faithful D)

mutual

/-- What a value is read back as. -/
def image : Json → α
  | .null => D.null
  | .bool b => D.bool b
  | .number n => F.ofNumber n
  | .string s => F.ofString s
  | .array items => D.array (images items)
  | .object members => D.object (memberImages members)

def images : List Json → List α
  | [] => []
  | item :: items => image item :: images items

def memberImages : List (String × Json) → List (κ × α)
  | [] => []
  | (key, item) :: members => (F.ofKey key, image item) :: memberImages members

end

theorem images_eq (items : List Json) : F.images items = items.map F.image := by
  induction items with
  | nil => rfl
  | cons item items ih => rw [images, ih, List.map_cons]

end Faithful

/-! ## Compact texts -/

/-- The octets of a member, behind a brace or a comma. -/
theorem encode_member {c : Char} {b : UInt8} (h : String.utf8EncodeChar c = [b]) (key : String)
    (item : Json) (more : List Char) (rest : List UInt8) :
    encode (c :: Quoted.quote key ++ ':' :: item.compact ++ more) ++ rest =
      b :: 0x22 :: (encode (key.toList.flatMap Quoted.quoteChar ++ ['"']) ++
        (0x3A :: (encode item.compact ++ (encode more ++ rest)))) := by
  have htext : c :: Quoted.quote key ++ ':' :: item.compact ++ more =
      c :: '"' :: ((key.toList.flatMap Quoted.quoteChar ++ ['"']) ++
        (':' :: (item.compact ++ more))) := by
    simp only [Quoted.quote, List.cons_append, List.append_assoc]
  rw [htext, encode_cons_append h, encode_cons_append (b := 0x22) (by decide)]
  generalize key.toList.flatMap Quoted.quoteChar ++ ['"'] = name
  rw [Text.Utf8.encode_append, List.append_assoc, encode_cons_append (b := 0x3A) (by decide),
    Text.Utf8.encode_append, List.append_assoc]

/-- The items of a list that are left begin with a comma, or there is only the bracket. -/
theorem ends_compactItems (items : List Json) (rest : List UInt8) :
    Numeral.Ends (encode (compactItems items) ++ rest) := by
  cases items with
  | nil =>
    rw [compactItems, encode_cons_append (b := 0x5D) (by decide)]
    exact Numeral.ends_cons (by decide) _
  | cons item items =>
    rw [compactItems, List.cons_append, encode_cons_append (b := 0x2C) (by decide)]
    exact Numeral.ends_cons (by decide) _

/-- The members of an object that are left begin with a comma, or there is only the brace. -/
theorem ends_compactMembers (members : List (String × Json)) (rest : List UInt8) :
    Numeral.Ends (encode (compactMembers members) ++ rest) := by
  cases members with
  | nil =>
    rw [compactMembers, encode_cons_append (b := 0x7D) (by decide)]
    exact Numeral.ends_cons (by decide) _
  | cons m members =>
    obtain ⟨key, value⟩ := m
    rw [compactMembers, encode_member (b := 0x2C) (by decide)]
    exact Numeral.ends_cons (by decide) _

/-- Every item has a comma in front, so there are fewer items than characters. -/
theorem length_compactItems (items : List Json) : items.length < (compactItems items).length := by
  induction items with
  | nil => exact Nat.one_pos
  | cons item items ih =>
    rw [compactItems, List.length_append, List.length_cons, List.length_cons]
    omega

/-- A reader of a list is ready for as many items as the text behind the first has. -/
theorem length_lt_of_compactItems (items : List Json) (rest : List UInt8) :
    items.length < (encode (compactItems items) ++ rest).length + 1 := by
  have hitems := length_compactItems items
  have hoctets := Text.Utf8.length_le_length_encode (compactItems items)
  rw [List.length_append]
  omega

/-- Every member has a comma in front, so there are fewer members than characters. -/
theorem length_compactMembers (members : List (String × Json)) :
    members.length < (compactMembers members).length := by
  induction members with
  | nil => exact Nat.one_pos
  | cons m members ih =>
    obtain ⟨key, value⟩ := m
    rw [compactMembers, List.length_append, List.length_cons, List.length_append, List.length_cons]
    omega

/-- A reader of an object is ready for as many members as the text behind the first has. -/
theorem length_lt_of_compactMembers (members : List (String × Json)) (rest : List UInt8) :
    members.length < (encode (compactMembers members) ++ rest).length + 1 := by
  have hmembers := length_compactMembers members
  have hoctets := Text.Utf8.length_le_length_encode (compactMembers members)
  rw [List.length_append]
  omega

/-! ## Reading compact texts -/

namespace Faithful

variable {κ α : Type} {D : Denotation κ α} (F : Faithful D)

/-- A number is read back, with or without its minus. -/
theorem value_print (depth : Nat) {n : Numeral} (hn : n.Sound) {rest : List UInt8}
    (h : Numeral.Ends rest) :
    value D depth (encode n.print ++ rest) = .ok (F.ofNumber n, rest) := by
  have hread := F.number hn h
  rw [Numeral.print_eq]
  cases hnegative : n.isNegative with
  | true =>
    rw [hnegative] at hread
    rw [if_pos rfl, List.singleton_append, encode_cons_append (b := 0x2D) (by decide),
      value_minus, hread]
  | false =>
    obtain ⟨b, bs, hbytes, hdigit⟩ := Numeral.exists_digit_of_read (Numeral.read_print hn h)
    rw [hnegative] at hread
    rw [if_neg Bool.false_ne_true, List.nil_append, hbytes, value_digit D depth hdigit, ← hbytes,
      hread]

/-- A quoted string is read as this string, whatever stands behind it. -/
theorem value_quote_append (depth : Nat) (s : String) (rest : List UInt8) :
    value D depth (encode (Quoted.quote s) ++ rest) = .ok (F.ofString s, rest) := by
  rw [Quoted.quote, List.cons_append, encode_cons_append (b := 0x22) (by decide), value_quote,
    F.string]

/-- A value is read back, whatever stands behind it that does not continue a number. -/
def Restores (depth : Nat) (j : Json) : Prop :=
  ∀ ⦃rest : List UInt8⦄, Numeral.Ends rest →
    value D depth (encode j.compact ++ rest) = .ok (F.image j, rest)

variable {depth : Nat}

/-- Items are read back if each of them is. -/
theorem elements_compactItems {items : List Json} (h : ∀ item ∈ items, F.Restores depth item)
    {n : Nat} (hn : items.length < n) (rest : List UInt8) :
    elements (value D depth) n (encode (compactItems items) ++ rest) =
      .ok (F.images items, rest) := by
  -- the reader counts its turns down, one for each item and one for the bracket
  obtain ⟨n, rfl⟩ := Nat.exists_eq_add_one_of_ne_zero (Nat.ne_zero_of_lt hn)
  induction items generalizing n with
  | nil =>
    rw [compactItems, encode_cons_append (b := 0x5D) (by decide)]
    rfl
  | cons item items ih =>
    have hvalue := h item List.mem_cons_self (ends_compactItems items rest)
    rw [List.length_cons] at hn
    obtain ⟨n, rfl⟩ := Nat.exists_eq_add_one_of_ne_zero (show n ≠ 0 by omega)
    have hmore := ih (fun j hj => h j (List.mem_cons_of_mem item hj)) n (by omega)
    rw [compactItems, List.cons_append, encode_cons_append (b := 0x2C) (by decide),
      Text.Utf8.encode_append, List.append_assoc]
    exact elements_cons hvalue hmore

/-- A member is read back if its value is. -/
theorem member_compact {m : String × Json} {rest : List UInt8}
    (h : value D depth (encode m.2.compact ++ rest) = .ok (F.image m.2, rest)) :
    member (value D depth) D.key
        (encode (m.1.toList.flatMap Quoted.quoteChar ++ ['"']) ++
          (0x3A :: (encode m.2.compact ++ rest))) =
      .ok ((F.ofKey m.1, F.image m.2), rest) :=
  member_eq (F.key m.1 _) rfl h

/-- Members that are printed are read as their images, if their values are. -/
theorem members_compactMembers {ms : List (String × Json)}
    (h : ∀ m ∈ ms, F.Restores depth m.2) {n : Nat} (hn : ms.length < n) (rest : List UInt8) :
    members (value D depth) D.key n (encode (compactMembers ms) ++ rest) =
      .ok (F.memberImages ms, rest) := by
  obtain ⟨n, rfl⟩ := Nat.exists_eq_add_one_of_ne_zero (Nat.ne_zero_of_lt hn)
  induction ms generalizing n with
  | nil =>
    rw [compactMembers, encode_cons_append (b := 0x7D) (by decide)]
    rfl
  | cons m ms ih =>
    obtain ⟨key, item⟩ := m
    have hvalue := h (key, item) List.mem_cons_self (ends_compactMembers ms rest)
    rw [List.length_cons] at hn
    obtain ⟨n, rfl⟩ := Nat.exists_eq_add_one_of_ne_zero (show n ≠ 0 by omega)
    have hmore := ih (fun m hm => h m (List.mem_cons_of_mem _ hm)) n (by omega)
    rw [compactMembers, encode_member (b := 0x2C) (by decide)]
    have hmember := F.member_compact hvalue
    exact members_cons rfl hmember hmore

/-- A value that fits is read back from its compact text. -/
theorem value_compact {j : Json} (hj : Fits depth j) : F.Restores depth j := by
  -- the depth goes down with the value, as it does for the reader
  induction hj with
  | null =>
    intro rest _
    unfold value
    rfl
  | bool b =>
    intro rest _
    unfold value
    cases b <;> rfl
  | number hn => exact fun rest h => F.value_print _ hn h
  | string s => exact fun rest _ => F.value_quote_append _ s rest
  | @array depth items _ ih =>
    intro rest _
    cases items with
    | nil =>
      rw [compact, encode_cons_append (b := 0x5B) (by decide), value_bracket]
      rfl
    | cons item items =>
      -- only the first item has no comma in front
      have hfirst := ih item List.mem_cons_self (ends_compactItems items rest)
      have hmore := F.elements_compactItems (fun j hj => ih j (List.mem_cons_of_mem item hj))
        (length_lt_of_compactItems items rest) rest
      rw [compact, List.cons_append, encode_cons_append (b := 0x5B) (by decide),
        Text.Utf8.encode_append, List.append_assoc, value_bracket, listItems_cons hfirst hmore]
      rfl
  | @object depth ms _ ih =>
    intro rest _
    cases ms with
    | nil =>
      rw [compact, encode_cons_append (b := 0x7B) (by decide), value_brace]
      rfl
    | cons m ms =>
      obtain ⟨key, item⟩ := m
      have hfirst := ih (key, item) List.mem_cons_self (ends_compactMembers ms rest)
      have hmore := F.members_compactMembers (fun m hm => ih m (List.mem_cons_of_mem _ hm))
        (length_lt_of_compactMembers ms rest) rest
      rw [compact, encode_member (b := 0x7B) (by decide), value_brace,
        objectMembers_cons rfl (F.member_compact hfirst) hmore]
      rfl

/-- A value that fits is read back from its compact text, as its image. -/
theorem read_compact {j : Json} (hj : Fits depth j) :
    read D depth (encode j.compact) = .ok (F.image j) := by
  have hend : Numeral.Ends [] := trivial
  have hvalue := F.value_compact hj hend
  rw [List.append_nil] at hvalue
  unfold read
  rw [hvalue]
  rfl

end Faithful

/-! ## Values that fit -/

/-- A value that fits in some depth fits in more. -/
theorem Fits.mono {depth depth' : Nat} {j : Json} (h : Fits depth j) (hle : depth ≤ depth') :
    Fits depth' j := by
  induction h generalizing depth' with
  | null => exact .null
  | bool b => exact .bool b
  | number hn => exact .number hn
  | string s => exact .string s
  | array _ ih =>
    obtain ⟨depth', rfl⟩ := Nat.exists_eq_add_one_of_ne_zero (show depth' ≠ 0 by omega)
    exact .array fun item hitem => ih item hitem (by omega)
  | object _ ih =>
    obtain ⟨depth', rfl⟩ := Nat.exists_eq_add_one_of_ne_zero (show depth' ≠ 0 by omega)
    exact .object fun m hm => ih m hm (by omega)

/-- An item is shorter than the text of its list: what the induction over depths goes down by. -/
theorem length_compact_of_mem_items {items : List Json} {item : Json} (h : item ∈ items) :
    item.compact.length < (compactItems items).length := by
  induction items with
  | nil => cases h
  | cons first items ih =>
    rw [compactItems, List.length_append, List.length_cons]
    rcases List.mem_cons.mp h with rfl | hmem
    · omega
    · have hlt := ih hmem
      omega

/-- The value of a member is shorter than the text of its object. -/
theorem length_compact_of_mem_members {ms : List (String × Json)} {m : String × Json}
    (h : m ∈ ms) : m.2.compact.length < (compactMembers ms).length := by
  induction ms with
  | nil => cases h
  | cons first ms ih =>
    rw [compactMembers]
    simp only [List.length_append, List.length_cons]
    rcases List.mem_cons.mp h with rfl | hmem
    · omega
    · have hlt := ih hmem
      omega

/-- With an opening bracket for the first comma, a list is as long as the text of its items. -/
theorem length_compact_array {items : List Json} (h : items ≠ []) :
    (compact (.array items)).length = (compactItems items).length := by
  obtain ⟨item, items, rfl⟩ := List.exists_cons_of_ne_nil h
  rw [compact, compactItems]
  simp only [List.length_append, List.length_cons]

theorem length_compact_object {ms : List (String × Json)} (h : ms ≠ []) :
    (compact (.object ms)).length = (compactMembers ms).length := by
  obtain ⟨m, ms, rfl⟩ := List.exists_cons_of_ne_nil h
  obtain ⟨key, item⟩ := m
  rw [compact, compactMembers]
  simp only [List.length_append, List.length_cons]

/-- The text of a value is at least as long as the value is deep. -/
theorem Fits.length_compact {depth : Nat} {j : Json} (h : Fits depth j) :
    Fits j.compact.length j := by
  -- the text of an item is shorter than the text of its list, and the item one less deep
  induction h with
  | null => exact .null
  | bool b => exact .bool b
  | number hn => exact .number hn
  | string s => exact .string s
  | @array _ items _ ih =>
    have hpos : 0 < (compact (.array items)).length := by
      cases items <;> exact Nat.succ_pos _
    obtain ⟨k, hk⟩ := Nat.exists_eq_add_one_of_ne_zero (Nat.ne_zero_of_lt hpos)
    rw [hk]
    refine .array fun item hitem => (ih item hitem).mono ?_
    have hlt := length_compact_of_mem_items hitem
    rw [← length_compact_array (List.ne_nil_of_mem hitem)] at hlt
    omega
  | @object _ ms _ ih =>
    have hpos : 0 < (compact (.object ms)).length := by
      cases ms <;> exact Nat.succ_pos _
    obtain ⟨k, hk⟩ := Nat.exists_eq_add_one_of_ne_zero (Nat.ne_zero_of_lt hpos)
    rw [hk]
    refine .object fun m hm => (ih m hm).mono ?_
    have hlt := length_compact_of_mem_members hm
    rw [← length_compact_object (List.ne_nil_of_mem hm)] at hlt
    omega

/-! ## Values and documents -/

/-- Strings and keys are read back as they are, numbers as a reader of numbers rounds them. -/
def faithful : Faithful denotation where
  ofNumber n := .number n.reread
  ofString := .string
  ofKey key := key
  number hn h := by
    show (Numeral.read _ _).map _ = _
    rw [Numeral.read_print hn h]
    rfl
  string s rest := by
    show (Quoted.text _).map _ = _
    rw [Quoted.text_quote]
    rfl
  key := Quoted.text_quote

/-- The value that a compact text is read as. -/
theorem ofText?_compact {j : Json} (h : Fits maxDepth j) :
    ofText? j.compact = .ok (faithful.image j) := by
  rw [ofText?, ofBytes?, faithful.read_compact h]
  rfl

namespace Document

/-- Documents keep numbers, strings and keys as values do. -/
def faithful : Faithful denotation where
  ofNumber n := .number (some n.reread)
  ofString s := .string (some s)
  ofKey := some
  number hn h := by
    show readNumber _ _ = _
    rw [readNumber, Numeral.read_print hn h]
  string s rest := by
    show (readText _).map _ = _
    rw [readText, Quoted.text_quote]
    rfl
  key s rest := by
    show readText _ = _
    rw [readText, Quoted.text_quote]

/-- The document that a compact text is read as; values may be nested to any depth. -/
theorem ofText?_compact {depth : Nat} {j : Json} (h : Fits depth j) :
    ofText? j.compact = some (faithful.image j) := by
  have hoctets := Text.Utf8.length_le_length_encode j.compact
  have hfits : Fits ((encode j.compact).length + 1) j := h.length_compact.mono (by omega)
  rw [ofText?, faithful.read_compact hfits]
  rfl

end Document

end HealthRules.Json
