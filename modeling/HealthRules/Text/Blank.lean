/-!
# White space

White space is the Unicode property White_Space: 25 characters, the no-break space, the next-line
character and the ideographic space among them, the zero-width space and the byte order mark not.
`trim` takes it off both ends; `trim_eq_self_iff` says which texts it leaves alone.
-/

namespace HealthRules.Text

/-- The Unicode property White_Space. -/
def isBlank (c : Char) : Bool :=
  let n := c.toNat
  (0x09 ≤ n && n ≤ 0x0D) || n == 0x20 || n == 0x85 || n == 0xA0 || n == 0x1680
    || (0x2000 ≤ n && n ≤ 0x200A) || n == 0x2028 || n == 0x2029 || n == 0x202F || n == 0x205F
    || n == 0x3000

/-- The text without white space at its start. -/
def trimStart (cs : List Char) : List Char :=
  cs.dropWhile isBlank

/-- The text without white space at its end. -/
def trimEnd (cs : List Char) : List Char :=
  (cs.reverse.dropWhile isBlank).reverse

/-- The text without white space at either end. -/
def trim (cs : List Char) : List Char :=
  trimEnd (trimStart cs)

theorem trimStart_eq_self_iff {cs : List Char} :
    trimStart cs = cs ↔ ∀ c ∈ cs.head?, isBlank c = false := by
  cases cs with
  | nil => simp [trimStart]
  | cons c cs =>
    cases h : isBlank c with
    | false => simp [trimStart, h]
    | true =>
      have hne : cs.dropWhile isBlank ≠ c :: cs := fun he => by
        have : (cs.dropWhile isBlank).length ≤ cs.length :=
          (List.dropWhile_sublist isBlank).length_le
        rw [he, List.length_cons] at this
        omega
      simp [trimStart, h, hne]

theorem trimEnd_eq_self_iff {cs : List Char} :
    trimEnd cs = cs ↔ ∀ c ∈ cs.getLast?, isBlank c = false := by
  have h := @trimStart_eq_self_iff cs.reverse
  rw [List.head?_reverse] at h
  rw [← h, trimEnd, trimStart, List.reverse_eq_iff]

theorem trim_eq_self_iff {cs : List Char} :
    trim cs = cs ↔
      (∀ c ∈ cs.head?, isBlank c = false) ∧ ∀ c ∈ cs.getLast?, isBlank c = false := by
  rw [← trimStart_eq_self_iff, ← trimEnd_eq_self_iff]
  constructor
  · intro h
    -- neither end can lose a character, or the text would be shorter
    have hstart : (trimStart cs).Sublist cs := List.dropWhile_sublist isBlank
    have hend : (trim cs).Sublist (trimStart cs) := by
      have hdrop := (List.dropWhile_sublist isBlank (l := (trimStart cs).reverse)).reverse
      rwa [List.reverse_reverse] at hdrop
    have hlength := hend.length_le
    rw [h] at hlength
    have hself : trimStart cs = cs := hstart.eq_of_length_le hlength
    rw [trim, hself] at h
    exact ⟨hself, h⟩
  · rintro ⟨hstart, hend⟩
    rw [trim, hstart, hend]

end HealthRules.Text
