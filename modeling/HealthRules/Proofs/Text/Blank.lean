import Mathlib
import HealthRules.Proofs.Text.Utf8
import HealthRules.Text.Blank

/-!
# Taking white space off

A text is its trimmed text between white space (`exists_trim`), white space that is put around a
text is taken off again (`trim_append`), and a trimmed text is left alone (`trim_trim`). Nothing is
left exactly of the texts that are white space only (`trim_eq_nil_iff`).
-/

namespace HealthRules.Text

/-- The visible characters of ASCII are not white space. -/
theorem isBlank_of_visible {b : UInt8} (hlow : 0x20 < b.toNat) (hhigh : b.toNat < 0x80) :
    isBlank (Char.ofUInt8 b) = false := by
  unfold isBlank
  rw [Utf8.toNat_ofUInt8]
  simp
  omega

theorem trimEnd_eq_nil_iff {cs : List Char} : trimEnd cs = [] ↔ ∀ c ∈ cs, isBlank c = true := by
  rw [trimEnd, List.reverse_eq_nil_iff, List.dropWhile_eq_nil_iff]
  simp only [List.mem_reverse]

/-- Nothing is left of a text exactly if it is white space only. -/
theorem trim_eq_nil_iff {cs : List Char} : trim cs = [] ↔ ∀ c ∈ cs, isBlank c = true := by
  rw [trim, trimEnd_eq_nil_iff, trimStart]
  constructor
  · intro h
    -- what `dropWhile` leaves starts with a character that is not blank, so it leaves nothing
    have hnil : cs.dropWhile isBlank = [] := by
      by_contra hne
      have hhead := List.head_dropWhile_not isBlank hne
      rw [h _ (List.head_mem hne)] at hhead
      exact absurd hhead (by decide)
    exact List.dropWhile_eq_nil_iff.mp hnil
  · intro h c hc
    exact h c (List.dropWhile_subset isBlank hc)

/-- White space around a text is taken off with that of the text. -/
theorem trim_append {front cs back : List Char} (hfront : ∀ c ∈ front, isBlank c = true)
    (hback : ∀ c ∈ back, isBlank c = true) : trim (front ++ (cs ++ back)) = trim cs := by
  have hend : ∀ ds : List Char, trimEnd (ds ++ back) = trimEnd ds := by
    intro ds
    rw [trimEnd, List.reverse_append, List.dropWhile_append_of_pos, trimEnd]
    exact fun c hc => hback c (List.mem_reverse.mp hc)
  rw [trim, trimStart, List.dropWhile_append_of_pos hfront, List.dropWhile_append, trim, trimStart]
  split_ifs with hempty
  · -- a text of white space only goes into the space behind it
    rw [List.dropWhile_eq_nil_iff.mpr hback, List.isEmpty_iff.mp hempty]
  · exact hend _

/-- A text is what is left of it between white space. -/
theorem exists_trim (cs : List Char) : ∃ front back, cs = front ++ (trim cs ++ back) ∧
    (∀ c ∈ front, isBlank c = true) ∧ ∀ c ∈ back, isBlank c = true := by
  refine ⟨cs.takeWhile isBlank, ((trimStart cs).reverse.takeWhile isBlank).reverse, ?_,
    fun c hc => List.mem_takeWhile_imp hc,
    fun c hc => List.mem_takeWhile_imp (List.mem_reverse.mp hc)⟩
  rw [trim, trimEnd, ← List.reverse_append, List.takeWhile_append_dropWhile, List.reverse_reverse,
    trimStart, List.takeWhile_append_dropWhile]

/-- Nothing more is taken off a trimmed text. -/
theorem trim_trim (cs : List Char) : trim (trim cs) = trim cs := by
  obtain ⟨front, back, hcs, hfront, hback⟩ := exists_trim cs
  have htrim : trim (front ++ (trim cs ++ back)) = trim (trim cs) := trim_append hfront hback
  rw [← hcs] at htrim
  exact htrim.symm

end HealthRules.Text
