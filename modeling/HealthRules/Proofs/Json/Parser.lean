import Mathlib
import HealthRules.Proofs.Json.RoundTrip
import HealthRules.Proofs.Result
import HealthRules.Resolution

/-!
# What a reader of JSON gives

Each thing that a value can be is read in its own way (`ReadAs`). A value that was read fits the
depth it was read with (`fits_of_value`), and so does every value that a path leads to
(`Fits.of_walk?`). So a value found in a body is read back from its text.
-/

namespace HealthRules.Json

open Text.Utf8 (eq_of_ofUInt8)

/-! ## Lists and members -/

section
variable {α κ : Type} {element : List UInt8 → Except Fault (α × List UInt8)}
  {key : List UInt8 → Except Fault (κ × List UInt8)} {n : Nat} {bytes rest : List UInt8}
  {xs : List α} {m : κ × α} {ms : List (κ × α)}

/-- Behind an element stands the closing bracket, or a comma and a further element. -/
theorem elements_cases (h : elements element n bytes = .ok (xs, rest)) :
    (skipBlank bytes = 0x5D :: rest ∧ xs = []) ∨
      ∃ n' afterComma x xs' rest', n = n' + 1 ∧ skipBlank bytes = 0x2C :: afterComma ∧
        xs = x :: xs' ∧ element (skipBlank afterComma) = .ok (x, rest') ∧
        elements element n' rest' = .ok (xs', rest) := by
  cases n with
  | zero => cases h
  | succ n =>
    rw [elements] at h
    split at h
    · cases h
    next b bs hskip =>
    split_ifs at h with hbracket hcomma
    · cases h
      exact .inl ⟨by rw [hskip, eq_of_ofUInt8 (b := 0x5D) hbracket], rfl⟩
    split at h
    · cases h
    next c cs hskip' =>
    split_ifs at h
    obtain ⟨⟨x, rest'⟩, hx, h⟩ := bind_eq_ok_iff.mp h
    obtain ⟨⟨xs', rest''⟩, hxs, h⟩ := bind_eq_ok_iff.mp h
    cases h
    refine .inr ⟨n, bs, x, xs', rest', rfl, ?_, rfl, by rw [hskip', hx], hxs⟩
    rw [hskip, eq_of_ofUInt8 (b := 0x2C) hcomma]

/-- Behind an opening bracket stands the closing one, or a first element. -/
theorem listItems_cases (h : listItems element bytes = .ok (xs, rest)) :
    (skipBlank bytes = 0x5D :: rest ∧ xs = []) ∨
      ∃ x xs' rest', xs = x :: xs' ∧ element (skipBlank bytes) = .ok (x, rest') ∧
        elements element (rest'.length + 1) rest' = .ok (xs', rest) := by
  rw [listItems] at h
  split at h
  · cases h
  next b bs hskip =>
  split_ifs at h with hbracket
  · cases h
    exact .inl ⟨by rw [hskip, eq_of_ofUInt8 (b := 0x5D) hbracket], rfl⟩
  obtain ⟨⟨x, rest'⟩, hx, h⟩ := bind_eq_ok_iff.mp h
  obtain ⟨⟨xs', rest''⟩, hxs, h⟩ := bind_eq_ok_iff.mp h
  cases h
  exact .inr ⟨x, xs', rest', rfl, by rw [hskip, hx], hxs⟩

/-- A member is a name, a colon and an element. -/
theorem member_cases (h : member element key bytes = .ok (m, rest)) :
    ∃ afterName afterColon, key bytes = .ok (m.1, afterName) ∧
      skipBlank afterName = 0x3A :: afterColon ∧ element afterColon = .ok (m.2, rest) := by
  obtain ⟨⟨name, afterName⟩, hkey, h⟩ := bind_eq_ok_iff.mp h
  dsimp only at h
  split at h
  · cases h
  next b bs hskip =>
  split_ifs at h with hcolon
  obtain ⟨⟨x, rest''⟩, hx, h⟩ := bind_eq_ok_iff.mp h
  cases h
  exact ⟨afterName, bs, hkey, by rw [hskip, eq_of_ofUInt8 (b := 0x3A) hcolon], hx⟩

/-- Behind a member stands the closing brace, or a comma and a further member. -/
theorem members_cases (h : members element key n bytes = .ok (ms, rest)) :
    (skipBlank bytes = 0x7D :: rest ∧ ms = []) ∨
      ∃ n' afterComma afterQuote m ms' rest', n = n' + 1 ∧
        skipBlank bytes = 0x2C :: afterComma ∧ skipBlank afterComma = 0x22 :: afterQuote ∧
        ms = m :: ms' ∧ member element key afterQuote = .ok (m, rest') ∧
        members element key n' rest' = .ok (ms', rest) := by
  cases n with
  | zero => cases h
  | succ n =>
    rw [members] at h
    split at h
    · cases h
    next b bs hskip =>
    split_ifs at h with hbrace hcomma
    · cases h
      exact .inl ⟨by rw [hskip, eq_of_ofUInt8 (b := 0x7D) hbrace], rfl⟩
    split at h
    · cases h
    next c cs hskip' =>
    split_ifs at h with hquote
    obtain ⟨⟨m, rest'⟩, hm, h⟩ := bind_eq_ok_iff.mp h
    obtain ⟨⟨ms', rest''⟩, hms, h⟩ := bind_eq_ok_iff.mp h
    cases h
    refine .inr ⟨n, bs, cs, m, ms', rest', rfl, ?_, ?_, rfl, hm, hms⟩
    · rw [hskip, eq_of_ofUInt8 (b := 0x2C) hcomma]
    · rw [hskip', eq_of_ofUInt8 (b := 0x22) hquote]

/-- Behind an opening brace stands the closing one, or a first member. -/
theorem objectMembers_cases (h : objectMembers element key bytes = .ok (ms, rest)) :
    (skipBlank bytes = 0x7D :: rest ∧ ms = []) ∨
      ∃ afterQuote m ms' rest', skipBlank bytes = 0x22 :: afterQuote ∧ ms = m :: ms' ∧
        member element key afterQuote = .ok (m, rest') ∧
        members element key (rest'.length + 1) rest' = .ok (ms', rest) := by
  rw [objectMembers] at h
  split at h
  · cases h
  next b bs hskip =>
  split_ifs at h with hbrace hquote
  · cases h
    exact .inl ⟨by rw [hskip, eq_of_ofUInt8 (b := 0x7D) hbrace], rfl⟩
  obtain ⟨⟨m, rest'⟩, hm, h⟩ := bind_eq_ok_iff.mp h
  obtain ⟨⟨ms', rest''⟩, hms, h⟩ := bind_eq_ok_iff.mp h
  cases h
  exact .inr ⟨bs, m, ms', rest', by rw [hskip, eq_of_ofUInt8 (b := 0x22) hquote], rfl, hm, hms⟩

variable {P : α → Prop} (hP : ∀ {bytes x rest}, element bytes = .ok (x, rest) → P x)
include hP

/-- What holds of every element that can be read holds of the elements behind commas. -/
theorem forall_mem_of_elements (h : elements element n bytes = .ok (xs, rest)) :
    ∀ x ∈ xs, P x := by
  induction n generalizing bytes xs with
  | zero => cases h
  | succ n ih =>
    rcases elements_cases h with ⟨-, rfl⟩ | ⟨n', _, x, xs', _, hn, -, rfl, hx, hxs⟩
    · exact fun x hx => absurd hx List.not_mem_nil
    · cases hn
      exact List.forall_mem_cons.mpr ⟨hP hx, ih hxs⟩

theorem forall_mem_of_listItems (h : listItems element bytes = .ok (xs, rest)) :
    ∀ x ∈ xs, P x := by
  rcases listItems_cases h with ⟨-, rfl⟩ | ⟨x, xs', _, rfl, hx, hxs⟩
  · exact fun x hx => absurd hx List.not_mem_nil
  · exact List.forall_mem_cons.mpr ⟨hP hx, forall_mem_of_elements hP hxs⟩

theorem of_member (h : member element key bytes = .ok (m, rest)) : P m.2 := by
  obtain ⟨_, _, -, -, hx⟩ := member_cases h
  exact hP hx

/-- What holds of every value that can be read holds of the members behind commas. -/
theorem forall_mem_of_members (h : members element key n bytes = .ok (ms, rest)) :
    ∀ m ∈ ms, P m.2 := by
  induction n generalizing bytes ms with
  | zero => cases h
  | succ n ih =>
    rcases members_cases h with ⟨-, rfl⟩ | ⟨n', _, _, m, ms', _, hn, -, -, rfl, hm, hms⟩
    · exact fun m hm => absurd hm List.not_mem_nil
    · cases hn
      exact List.forall_mem_cons.mpr ⟨of_member hP hm, ih hms⟩

theorem forall_mem_of_objectMembers (h : objectMembers element key bytes = .ok (ms, rest)) :
    ∀ m ∈ ms, P m.2 := by
  rcases objectMembers_cases h with ⟨-, rfl⟩ | ⟨_, m, ms', _, -, rfl, hm, hms⟩
  · exact fun m hm => absurd hm List.not_mem_nil
  · exact List.forall_mem_cons.mpr ⟨of_member hP hm, forall_mem_of_members hP hms⟩

end

/-- Putting members in order adds none. -/
theorem mem_of_mem_insertMember {α : Type} {key : String} {x : α} {ms : List (String × α)}
    {m : String × α} (h : m ∈ insertMember key x ms) : m = (key, x) ∨ m ∈ ms := by
  induction ms with
  | nil => exact .inl (List.mem_singleton.mp h)
  | cons first ms ih =>
    obtain ⟨k, v⟩ := first
    rw [insertMember] at h
    split_ifs at h
    · exact (List.mem_cons.mp h).imp_right (List.mem_cons_of_mem _)
    · exact List.mem_cons.mp h
    · rcases List.mem_cons.mp h with rfl | hmem
      · exact .inr List.mem_cons_self
      · exact (ih hmem).imp_right (List.mem_cons_of_mem _)

/-- Sorting members adds none either, although it may drop some. -/
theorem mem_of_mem_sortMembers {α : Type} {ms : List (String × α)} {m : String × α}
    (h : m ∈ sortMembers ms) : m ∈ ms := by
  have hfold : ∀ sorted : List (String × α),
      m ∈ ms.foldl (fun sorted m => insertMember m.1 m.2 sorted) sorted → m ∈ sorted ∨ m ∈ ms := by
    clear h
    induction ms with
    | nil => exact fun sorted h => .inl h
    | cons first ms ih =>
      intro sorted h
      rw [List.foldl_cons] at h
      rcases ih _ h with hinsert | hmem
      · rcases mem_of_mem_insertMember hinsert with rfl | hmem
        · exact .inr List.mem_cons_self
        · exact .inl hmem
      · exact .inr (List.mem_cons_of_mem _ hmem)
  exact (hfold [] h).resolve_left List.not_mem_nil

/-! ## Values -/

/-- How a value is read from octets that begin with it, one case for each thing it can be. -/
inductive ReadAs (depth : Nat) : List UInt8 → Json → List UInt8 → Prop
  | null {bytes rest : List UInt8} (h : word ['u', 'l', 'l'] bytes = .ok rest) :
      ReadAs depth (0x6E :: bytes) .null rest
  | truth {bytes rest : List UInt8} (h : word ['r', 'u', 'e'] bytes = .ok rest) :
      ReadAs depth (0x74 :: bytes) (.bool true) rest
  | falsity {bytes rest : List UInt8} (h : word ['a', 'l', 's', 'e'] bytes = .ok rest) :
      ReadAs depth (0x66 :: bytes) (.bool false) rest
  | string {bytes rest : List UInt8} {s : String} (h : Quoted.text bytes = .ok (s, rest)) :
      ReadAs depth (0x22 :: bytes) (.string s) rest
  | negative {bytes rest : List UInt8} {n : Numeral} (h : Numeral.read true bytes = .ok (n, rest)) :
      ReadAs depth (0x2D :: bytes) (.number n) rest
  | positive {bytes rest : List UInt8} {n : Numeral}
      (h : Numeral.read false bytes = .ok (n, rest)) : ReadAs depth bytes (.number n) rest
  | array {bytes rest : List UInt8} {inner : Nat} {items : List Json} (hinner : inner < depth)
      (h : listItems (value denotation inner) bytes = .ok (items, rest)) :
      ReadAs depth (0x5B :: bytes) (.array items) rest
  | object {bytes rest : List UInt8} {inner : Nat} {ms : List (String × Json)}
      (hinner : inner < depth)
      (h : objectMembers (value denotation inner) Quoted.text bytes = .ok (ms, rest)) :
      ReadAs depth (0x7B :: bytes) (.ofMembers ms) rest

section
variable {depth : Nat} {bytes rest : List UInt8} {j : Json}

/-- A value is read as its first octet behind white space says. -/
theorem readAs_of_value (h : value denotation depth bytes = .ok (j, rest)) :
    ReadAs depth (skipBlank bytes) j rest := by
  unfold value at h
  split at h
  · cases h
  next b bs hskip =>
  rw [hskip]
  split at h
  -- the cases are those of the reader, one for each first octet
  case h_1 hchar =>
    obtain rfl : b = 0x6E := eq_of_ofUInt8 hchar
    obtain ⟨rest', hword, h⟩ := map_eq_ok_iff.mp h
    cases h
    exact .null hword
  case h_2 hchar =>
    obtain rfl : b = 0x74 := eq_of_ofUInt8 hchar
    obtain ⟨rest', hword, h⟩ := map_eq_ok_iff.mp h
    cases h
    exact .truth hword
  case h_3 hchar =>
    obtain rfl : b = 0x66 := eq_of_ofUInt8 hchar
    obtain ⟨rest', hword, h⟩ := map_eq_ok_iff.mp h
    cases h
    exact .falsity hword
  case h_4 hchar =>
    obtain rfl : b = 0x22 := eq_of_ofUInt8 hchar
    obtain ⟨⟨s, rest'⟩, hs, h⟩ := map_eq_ok_iff.mp h
    cases h
    exact .string hs
  case h_5 hchar =>
    obtain rfl : b = 0x2D := eq_of_ofUInt8 hchar
    obtain ⟨⟨n, rest'⟩, hn, h⟩ := map_eq_ok_iff.mp h
    cases h
    exact .negative hn
  case h_6 hchar =>
    obtain rfl : b = 0x5B := eq_of_ofUInt8 hchar
    split at h
    · cases h
    · next depth =>
      obtain ⟨⟨items, rest'⟩, hitems, h⟩ := map_eq_ok_iff.mp h
      cases h
      exact .array (Nat.lt_succ_self depth) hitems
  case h_7 hchar =>
    obtain rfl : b = 0x7B := eq_of_ofUInt8 hchar
    split at h
    · cases h
    · next depth =>
      obtain ⟨⟨ms, rest'⟩, hms, h⟩ := map_eq_ok_iff.mp h
      cases h
      exact .object (Nat.lt_succ_self depth) hms
  case h_8 =>
    split_ifs at h
    obtain ⟨⟨n, rest'⟩, hn, h⟩ := map_eq_ok_iff.mp h
    cases h
    exact .positive hn

/-- A value that was read has numbers that a reader gives, and is not nested too deep. -/
theorem fits_of_value (h : value denotation depth bytes = .ok (j, rest)) : Fits depth j := by
  -- what is inside a list or an object is read with less depth
  induction depth using Nat.strong_induction_on generalizing bytes rest j with
  | _ depth ih =>
    have hread := readAs_of_value h
    generalize skipBlank bytes = octets at hread
    cases hread with
    | null _ => exact .null
    | truth _ => exact .bool true
    | falsity _ => exact .bool false
    | string _ => exact .string _
    | negative h | positive h => exact .number (Numeral.sound_of_read h)
    | array hinner h =>
      exact (Fits.array (forall_mem_of_listItems (ih _ hinner) h)).mono hinner
    | object hinner h =>
      -- the members have been put in order, and a later one has replaced an earlier of its key
      have hall := forall_mem_of_objectMembers (ih _ hinner) h
      exact (Fits.object fun m hm => hall m (mem_of_mem_sortMembers hm)).mono hinner

/-- Octets write a value if they begin with it and only white space follows. -/
theorem ofBytes?_eq_ok_iff_value : ofBytes? bytes = .ok j ↔
    ∃ rest, value denotation maxDepth bytes = .ok (j, rest) ∧ ∀ b ∈ rest, isBlank b = true := by
  rw [ofBytes?, mapError_eq_ok_iff, read, bind_eq_ok_iff]
  constructor
  · rintro ⟨⟨j', rest⟩, hvalue, h⟩
    dsimp only at h
    split at h
    · next hskip =>
      cases h
      exact ⟨rest, hvalue, List.dropWhile_eq_nil_iff.mp hskip⟩
    · cases h
  · rintro ⟨rest, hvalue, hrest⟩
    have hskip : skipBlank rest = [] := List.dropWhile_eq_nil_iff.mpr hrest
    refine ⟨(j, rest), hvalue, ?_⟩
    dsimp only
    rw [hskip]
    rfl

/-- A whole document fits within the greatest depth. -/
theorem fits_of_ofBytes? (h : ofBytes? bytes = .ok j) : Fits maxDepth j := by
  obtain ⟨rest, hvalue, -⟩ := ofBytes?_eq_ok_iff_value.mp h
  exact fits_of_value hvalue

end

/-! ## Paths -/

/-- A step leads to a member or to an item. -/
theorem mem_of_step? {step : Step} {j j' : Json} (h : step? step j = .ok j') :
    (∃ name members, j = .object members ∧ (name, j') ∈ members) ∨
      ∃ items, j = .array items ∧ j' ∈ items := by
  unfold step? at h
  split at h
  · split at h
    · next hmember =>
      cases h
      obtain ⟨front, back, rfl, -⟩ := List.lookup_eq_some_iff.mp hmember
      exact .inl ⟨_, _, rfl, List.mem_append_right front List.mem_cons_self⟩
    · cases h
  · cases h
  · split at h
    · next hitem =>
      cases h
      exact .inr ⟨_, rfl, List.mem_of_getElem? hitem⟩
    · cases h
  · cases h

/-- What a step leads to is a part of the value, and fits with one level less. -/
theorem Fits.of_step? {depth : Nat} {step : Step} {j j' : Json} (hj : Fits depth j)
    (h : step? step j = .ok j') : Fits depth j' := by
  rcases mem_of_step? h with ⟨_, members, rfl, hmem⟩ | ⟨items, rfl, hmem⟩
  · cases hj with
    | object hall => exact (hall _ hmem).mono (Nat.le_succ _)
  · cases hj with
    | array hall => exact (hall _ hmem).mono (Nat.le_succ _)

/-- What a path leads to fits too. -/
theorem Fits.of_walk? {depth : Nat} {path : BodyPath} {j j' : Json} (hj : Fits depth j)
    (h : j.walk? path = .ok j') : Fits depth j' := by
  induction path generalizing j with
  | nil =>
    cases h
    exact hj
  | cons step path ih =>
    obtain ⟨next, hnext, h⟩ := bind_eq_ok_iff.mp h
    exact ih (hj.of_step? hnext) h

end HealthRules.Json
