import Mathlib
import HealthRules.Proofs.Json.Quoted
import HealthRules.Proofs.Number.Digits
import HealthRules.Proofs.Text.Decoding

/-!
# Where a string ends

A reader of a string takes one octet after the other up to a quote (`octets_cons`), so nothing
behind the quote counts. `Unescapes` is a run of it: the octets that were taken and those that they
stand for. What an escape stands for is a character, and its own octets are ASCII; so the octets
that were taken are a text if what they stand for is one (`Unescapes.isText`).
-/

namespace HealthRules.Json.Quoted

open Text.Utf8 (encode IsText ascii_of_ofUInt8 eq_of_ofUInt8)

/-! ## Single octets -/

/-- What a reader of a string does at an octet: it is done, or goes on to a place with some octets
read. -/
inductive Move where
  | close
  | fault (reason : Reason)
  | go (emit : List UInt8) (place : Place)

/-- What a reader does at the last digit of an escape, after a high surrogate or not. -/
def moveHex (n : Nat) : Option Nat → Move
  | none =>
    if isLowSurrogate n then .fault .loneSurrogate
    else if isHighSurrogate n then .go [] (.high n)
    else .go (encode [Char.ofNat n]) .plain
  | some high =>
    if isLowSurrogate n then .go (encode [pairUp high n]) .plain else .fault .loneSurrogate

def move : Place → UInt8 → Move
  | .plain, b =>
    if Char.ofUInt8 b = '"' then .close
    else if Char.ofUInt8 b = '\\' then .go [] .escape
    else if b < 0x20 then .fault .controlCharacter
    else .go [b] .plain
  | .escape, b =>
    if Char.ofUInt8 b = 'u' then .go [] (.hex none [])
    else match letterEscape? (Char.ofUInt8 b) with
      | some octet => .go [octet] .plain
      | none => .fault .badEscape
  | .hex high digits, b =>
    if digits.length < 3 then .go [] (.hex high (digits ++ [b]))
    else match hex? (digits ++ [b]) with
      | none => .fault .badEscape
      | some n => moveHex n high
  | .high n, b => if Char.ofUInt8 b = '\\' then .go [] (.highEscape n) else .fault .endOfSurrogate
  | .highEscape n, b =>
    if Char.ofUInt8 b = 'u' then .go [] (.hex (some n) []) else .fault .endOfSurrogate

/-- The reader's result after a move, in front of some octets. -/
def Move.run (bs : List UInt8) : Move → Except Fault (List UInt8 × List UInt8)
  | close => .ok ([], bs)
  | fault reason => .error (.before reason bs)
  | go emit place => prepend emit (octets place bs)

/-- A reader of a string looks at one octet at a time, and only its place says what came before. -/
theorem octets_cons (place : Place) (b : UInt8) (bs : List UInt8) :
    octets place (b :: bs) = (move place b).run bs := by
  cases place with
  | plain =>
    rw [octets, move]
    split_ifs <;> simp only [Move.run, prepend_nil]
  | escape =>
    rw [octets, move]
    split_ifs
    · simp only [Move.run, prepend_nil]
    · cases letterEscape? (Char.ofUInt8 b) <;> rfl
  | hex high digits =>
    rw [octets.eq_def, move]
    dsimp only
    split_ifs
    · simp only [Move.run, prepend_nil]
    · cases hex? (digits ++ [b]) with
      | none => cases high <;> rfl
      | some n =>
        cases high with
        | none =>
          dsimp only
          rw [moveHex]
          split_ifs <;> simp only [Move.run, prepend_nil]
        | some h =>
          dsimp only
          rw [moveHex]
          split_ifs <;> simp only [Move.run]
  | high n | highEscape n =>
    rw [octets, move]
    split_ifs <;> simp only [Move.run, prepend_nil]

/-- Only a quote between characters closes a string. -/
theorem eq_of_move_close {place : Place} {b : UInt8} (h : move place b = .close) :
    place = .plain ∧ b = 0x22 := by
  cases place with
  | plain =>
    rw [move] at h
    split_ifs at h with hquote
    exact ⟨rfl, eq_of_ofUInt8 hquote⟩
  | escape =>
    rw [move] at h
    split_ifs at h
    cases hletter : letterEscape? (Char.ofUInt8 b) <;> simp [hletter] at h
  | hex high digits =>
    rw [move] at h
    split_ifs at h
    cases hvalue : hex? (digits ++ [b]) with
    | none => simp [hvalue] at h
    | some n =>
      cases high <;> simp only [hvalue, moveHex] at h <;> split_ifs at h
  | high n | highEscape n =>
    rw [move] at h
    split_ifs at h

/-! ## Octets of escapes -/

/-- A short escape and what it stands for are characters of ASCII. -/
theorem ascii_of_letterEscape? {b octet : UInt8} (h : letterEscape? (Char.ofUInt8 b) = some octet) :
    b.toNat < 0x80 ∧ octet.toNat < 0x80 := by
  unfold letterEscape? at h
  split at h
  case h_9 => cases h
  all_goals
    next hb =>
      cases h
      exact ⟨ascii_of_ofUInt8 (by decide) hb, by decide⟩

theorem ascii_of_hexDigit? {b : UInt8} {n : Nat} (h : hexDigit? b = some n) : b.toNat < 0x80 := by
  rw [← Text.Utf8.toNat_ofUInt8]
  unfold hexDigit? at h
  dsimp only at h
  split_ifs at h with hdigit hlower hupper
  · have hrange := Number.toNat_of_isDigit hdigit
    omega
  · have hle : (Char.ofUInt8 b).toNat ≤ 'f'.toNat := hlower.2
    exact Nat.lt_of_le_of_lt hle (by decide)
  · have hle : (Char.ofUInt8 b).toNat ≤ 'F'.toNat := hupper.2
    exact Nat.lt_of_le_of_lt hle (by decide)

theorem ascii_of_hex? {digits : List UInt8} {n : Nat} (h : hex? digits = some n) :
    ∀ d ∈ digits, d.toNat < 0x80 := by
  unfold hex? at h
  generalize 0 = m at h
  induction digits generalizing m with
  | nil => simp
  | cons d digits ih =>
    rw [List.foldlM_cons] at h
    obtain ⟨m', hd, hmore⟩ := Option.bind_eq_some_iff.mp h
    obtain ⟨value, hvalue, -⟩ := Option.map_eq_some_iff.mp hd
    exact List.forall_mem_cons.mpr ⟨ascii_of_hexDigit? hvalue, ih m' hmore⟩

/-- A digit of an escape is one of four, or the last of them: then all were digits, and they may
stand for a character. -/
theorem move_hex_cases {high : Option Nat} {digits emit : List UInt8} {b : UInt8} {place' : Place}
    (h : move (.hex high digits) b = .go emit place') :
    (emit = [] ∧ place' = .hex high (digits ++ [b])) ∨
      (∀ d ∈ digits ++ [b], d.toNat < 0x80) ∧
        ((∃ c, emit = encode [c] ∧ place' = .plain) ∨ emit = [] ∧ place' ≠ .plain) := by
  rw [move] at h
  split_ifs at h
  · cases h
    exact .inl ⟨rfl, rfl⟩
  · cases hvalue : hex? (digits ++ [b]) with
    | none => simp [hvalue] at h
    | some n =>
      rw [hvalue] at h
      refine .inr ⟨ascii_of_hex? hvalue, ?_⟩
      cases high with
      | none =>
        dsimp only at h
        rw [moveHex] at h
        split_ifs at h
        · cases h
          exact .inr ⟨rfl, by simp⟩
        · cases h
          exact .inl ⟨_, rfl, rfl⟩
      | some m =>
        dsimp only at h
        rw [moveHex] at h
        split_ifs at h
        obtain ⟨hemit, hplace⟩ := Move.go.inj h
        exact .inl ⟨pairUp m n, hemit.symm, hplace.symm⟩

/-- An octet stands for itself, it goes on with an escape, or it is the last one of an escape that
stands for a character. In an escape all octets are ASCII, which the digits show at its end. -/
theorem move_cases {place place' : Place} {b : UInt8} {emit : List UInt8}
    (h : move place b = .go emit place') :
    (place = .plain ∧ emit = [b] ∧ place' = .plain) ∨
      (emit = [] ∧ place' ≠ .plain ∧
        (b.toNat < 0x80 ∨ ∃ high digits, place' = .hex high (digits ++ [b]))) ∨
      ∃ c, emit = encode [c] ∧ place' = .plain ∧ b.toNat < 0x80 := by
  -- only in `plain` can an octet stand for itself
  cases place with
  | plain =>
    rw [move] at h
    split_ifs at h with hquote hbackslash hcontrol
    · cases h
      exact .inr (.inl ⟨rfl, by simp, .inl (ascii_of_ofUInt8 (by decide) hbackslash)⟩)
    · cases h
      exact .inl ⟨rfl, rfl, rfl⟩
  | escape =>
    rw [move] at h
    split_ifs at h with hu
    · cases h
      exact .inr (.inl ⟨rfl, by simp, .inl (ascii_of_ofUInt8 (by decide) hu)⟩)
    · cases hletter : letterEscape? (Char.ofUInt8 b) with
      | none => simp [hletter] at h
      | some octet =>
        rw [hletter] at h
        cases h
        obtain ⟨hb, hoctet⟩ := ascii_of_letterEscape? hletter
        refine .inr (.inr ⟨Char.ofUInt8 octet, ?_, rfl, hb⟩)
        rw [Text.Utf8.encode_singleton, Text.Utf8.utf8EncodeChar_one hoctet]
  | hex high digits =>
    rcases move_hex_cases h with ⟨hemit, hplace⟩ | ⟨hascii, ⟨c, hemit, hplace⟩ | ⟨hemit, hplace⟩⟩
    · exact .inr (.inl ⟨hemit, by rw [hplace]; simp, .inr ⟨high, digits, hplace⟩⟩)
    · exact .inr (.inr ⟨c, hemit, hplace, hascii b (by simp)⟩)
    · exact .inr (.inl ⟨hemit, hplace, .inl (hascii b (by simp))⟩)
  | high n =>
    rw [move] at h
    split_ifs at h with hbackslash
    cases h
    exact .inr (.inl ⟨rfl, by simp, .inl (ascii_of_ofUInt8 (by decide) hbackslash)⟩)
  | highEscape n =>
    rw [move] at h
    split_ifs at h with hu
    cases h
    exact .inr (.inl ⟨rfl, by simp, .inl (ascii_of_ofUInt8 (by decide) hu)⟩)

/-! ## Runs -/

/-- From a place, some octets up to a closing quote are read as others. -/
inductive Unescapes : Place → List UInt8 → List UInt8 → Prop
  | close {place : Place} {b : UInt8} (h : move place b = .close) : Unescapes place [b] []
  | go {place place' : Place} {b : UInt8} {emit used read : List UInt8}
    (h : move place b = .go emit place') (more : Unescapes place' used read) :
    Unescapes place (b :: used) (emit ++ read)

namespace Unescapes

variable {place : Place} {used read : List UInt8}

/-- Whatever stands behind the quote. -/
theorem octets_append (h : Unescapes place used read) (rest : List UInt8) :
    octets place (used ++ rest) = .ok (read, rest) := by
  induction h with
  | close h =>
    rw [List.singleton_append, octets_cons, h]
    rfl
  | go h _ ih =>
    rw [List.cons_append, octets_cons, h, Move.run, ih]
    rfl

/-- Whatever is read to a quote is a run, up to this quote. -/
theorem of_octets {bytes rest : List UInt8} (h : octets place bytes = .ok (read, rest)) :
    ∃ used, bytes = used ++ rest ∧ Unescapes place used read := by
  induction bytes generalizing place read with
  | nil => cases place <;> cases h
  | cons b bs ih =>
    rw [octets_cons] at h
    cases hmove : move place b with
    | close =>
      rw [hmove] at h
      cases h
      exact ⟨[b], rfl, .close hmove⟩
    | fault reason =>
      rw [hmove] at h
      cases h
    | go emit place' =>
      rw [hmove, Move.run] at h
      cases hmore : octets place' bs with
      | error fault =>
        rw [hmore] at h
        cases h
      | ok r =>
        obtain ⟨read', rest'⟩ := r
        rw [hmore] at h
        cases h
        obtain ⟨used, rfl, hused⟩ := ih hmore
        exact ⟨b :: used, rfl, .go hmove hused⟩

theorem exists_quote (h : Unescapes place used read) : ∃ front, used = front ++ [0x22] := by
  induction h with
  | close h => exact ⟨[], by rw [(eq_of_move_close h).2, List.nil_append]⟩
  | @go _ _ b _ _ _ _ _ ih =>
    obtain ⟨front, rfl⟩ := ih
    exact ⟨b :: front, rfl⟩

end Unescapes

/-! ## Texts -/

/-- Octets are a text if what they are read as from a place is one. Between characters octets may
stand for a part of a character, within an escape a character has not begun. -/
def Place.Keeps (place : Place) (used read : List UInt8) : Prop :=
  match place with
  | .plain => ∀ front, IsText (front ++ read) → IsText (front ++ used)
  | _ => ∀ front, IsText (front ++ read) → IsText front ∧ IsText used

section Keeps

variable {used read : List UInt8}

/-- It is enough that what stands in front and what was taken are texts, each by itself. -/
theorem Place.keeps_of_split (place : Place)
    (h : ∀ front, IsText (front ++ read) → IsText front ∧ IsText used) :
    place.Keeps used read := by
  cases place with
  | plain => exact fun front hfront => (h front hfront).1.append (h front hfront).2
  | escape | hex _ _ | high _ | highEscape _ => exact h

/-- Within an escape, what is taken and what stands in front of it are two texts. -/
theorem Place.Keeps.split {place : Place} (h : place.Keeps used read) (hplace : place ≠ .plain) :
    ∀ front, IsText (front ++ read) → IsText front ∧ IsText used := by
  cases place with
  | plain => exact absurd rfl hplace
  | escape | hex _ _ | high _ | highEscape _ => exact h

end Keeps

namespace Unescapes

variable {place : Place} {used read : List UInt8}

/-- The digits of an escape that is read to its end are digits. -/
theorem ascii_digits (h : Unescapes place used read) {high : Option Nat} {digits : List UInt8}
    (hplace : place = .hex high digits) : ∀ d ∈ digits, d.toNat < 0x80 := by
  induction h generalizing digits with
  | close h =>
    rw [(eq_of_move_close h).1] at hplace
    cases hplace
  | go h more ih =>
    subst hplace
    rcases move_hex_cases h with ⟨-, hmore⟩ | ⟨hascii, -⟩
    · exact fun d hd => ih hmore d (List.mem_append_left _ hd)
    · exact fun d hd => hascii d (List.mem_append_left _ hd)

/-- What a run has taken is a text if what it stands for is one. The induction is on the run: an
octet that stands for itself moves over to the front, and an escape is split off as a character. -/
theorem keeps (h : Unescapes place used read) : place.Keeps used read := by
  induction h with
  | close h =>
    refine Place.keeps_of_split _ fun front hfront => ?_
    rw [List.append_nil] at hfront
    rw [(eq_of_move_close h).2]
    exact ⟨hfront, IsText.nil.cons (by decide)⟩
  | @go place place' b emit used read h more ih =>
    rcases move_cases h with ⟨rfl, rfl, rfl⟩ | ⟨rfl, hplace, hb⟩ | ⟨c, rfl, rfl, hb⟩
    · intro front hfront
      have hmore := ih (front ++ [b]) (by rwa [List.append_assoc])
      rwa [List.append_assoc] at hmore
    · have hascii : b.toNat < 0x80 := by
        rcases hb with hb | ⟨high, digits, hdigits⟩
        · exact hb
        · exact more.ascii_digits hdigits b (by simp)
      refine Place.keeps_of_split _ fun front hfront => ?_
      obtain ⟨hleft, hright⟩ := ih.split hplace front hfront
      exact ⟨hleft, hright.cons hascii⟩
    · refine Place.keeps_of_split _ fun front hfront => ?_
      obtain ⟨hleft, hright⟩ := hfront.split_char
      exact ⟨hleft, IsText.cons hb (ih [] hright)⟩

end Unescapes

/-- A string is a text up to its quote, whatever stands behind it. -/
theorem exists_of_text {bytes rest : List UInt8} {s : String} (h : text bytes = .ok (s, rest)) :
    ∃ front, bytes = front ++ 0x22 :: rest ∧ IsText front ∧
      ∀ rest', text (front ++ 0x22 :: rest') = .ok (s, rest') := by
  rw [text] at h
  cases hoctets : octets .plain bytes with
  | error fault =>
    rw [hoctets] at h
    cases h
  | ok r =>
    obtain ⟨read, rest₁⟩ := r
    rw [hoctets] at h
    dsimp only at h
    cases hdecode : Text.Utf8.decode? read with
    | none =>
      rw [hdecode] at h
      cases h
    | some cs =>
      rw [hdecode] at h
      cases h
      obtain ⟨used, rfl, hused⟩ := Unescapes.of_octets hoctets
      obtain ⟨front, rfl⟩ := hused.exists_quote
      have htext : IsText (front ++ [0x22]) :=
        hused.keeps [] ⟨cs, Text.Utf8.decode?_eq_some_iff.mp hdecode⟩
      refine ⟨front, List.append_assoc .., (htext.split (by decide)).1, fun rest' => ?_⟩
      have hread := hused.octets_append rest'
      rw [List.append_assoc, List.singleton_append] at hread
      rw [text, hread]
      dsimp only
      rw [hdecode]

end HealthRules.Json.Quoted
