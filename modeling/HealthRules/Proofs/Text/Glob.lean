import HealthRules.Glob

/-!
# Runs along wildcard patterns

A run along a pattern and a text ends, and its answer is whether the pattern matches the text
(`isMatch_decides`).

Only the last star is ever tried again. What makes this enough is that the pattern between two
stars takes a fixed number of characters: whatever an earlier star could still reach, the later one
reaches too (`Retry.Reaches.exists_rest`). So no turn changes what a run can still find
(`Search.accepts_next`).
-/

namespace HealthRules.Glob

/-! ## The rule, character by character -/

theorem matches_nil_iff {t : List Char} : Matches [] t ↔ t = [] := by
  constructor
  · rintro ⟨⟩
    rfl
  · rintro rfl
    exact .nil

/-- A star stands for whatever is in front of some end of the text. -/
theorem matches_star_iff {p t : List Char} :
    Matches ('*' :: p) t ↔ ∃ rest, rest <:+ t ∧ Matches p rest := by
  constructor
  · intro h
    cases h with
    | star hrest hp => exact ⟨_, hrest, hp⟩
    | same _ hstar _ _ => exact absurd rfl hstar
  · rintro ⟨rest, hrest, hp⟩
    exact .star hrest hp

/-- A character other than a star takes one character of the text. -/
theorem matches_cons_iff {x : Char} (hx : x ≠ '*') {p t : List Char} :
    Matches (x :: p) t ↔ ∃ c rest, t = c :: rest ∧ (x = '?' ∨ x = c) ∧ Matches p rest := by
  constructor
  · intro h
    cases h with
    | star _ _ => exact absurd rfl hx
    | one c hp => exact ⟨c, _, rfl, .inl rfl, hp⟩
    | same c _ _ hp => exact ⟨x, _, rfl, .inr rfl, hp⟩
  · rintro ⟨c, rest, rfl, hxc, hp⟩
    by_cases hone : x = '?'
    · subst hone
      exact .one c hp
    · obtain rfl := hxc.resolve_left hone
      exact .same x hx hone hp

/-- Only stars match the empty text. -/
theorem matches_empty_iff {p : List Char} : Matches p [] ↔ p.all (· == '*') = true := by
  induction p with
  | nil => exact iff_of_true .nil rfl
  | cons x p ih =>
    rw [List.all_cons, Bool.and_eq_true, beq_iff_eq]
    by_cases hx : x = '*'
    · subst hx
      rw [matches_star_iff, ← ih]
      constructor
      · rintro ⟨rest, hrest, hp⟩
        rw [List.suffix_nil.mp hrest] at hp
        exact ⟨rfl, hp⟩
      · rintro ⟨-, hp⟩
        exact ⟨[], List.suffix_rfl, hp⟩
    · rw [matches_cons_iff hx]
      simp [hx]

/-- A pattern without stars takes as many characters as it has. -/
theorem exists_of_matches_append {passed p t : List Char} (hstar : '*' ∉ passed)
    (h : Matches (passed ++ p) t) :
    ∃ read rest, read.length = passed.length ∧ t = read ++ rest ∧ Matches p rest := by
  induction passed generalizing t with
  | nil => exact ⟨[], t, rfl, rfl, h⟩
  | cons x passed ih =>
    rw [List.mem_cons, not_or] at hstar
    obtain ⟨c, t', rfl, -, ht'⟩ := (matches_cons_iff (Ne.symm hstar.1)).mp h
    obtain ⟨read, rest, hlen, rfl, hp⟩ := ih hstar.2 ht'
    exact ⟨c :: read, rest, congrArg (· + 1) hlen, rfl, hp⟩

/-- If the pattern behind a star matches a text further on, then so does the rest of the pattern
that the run has come to, and in front of a place further on too. -/
theorem Retry.Reaches.exists_rest {r : Retry} {p t far : List Char} (h : r.Reaches p t)
    (hfar : far <:+ r.text.tail) (hmatch : Matches r.pattern far) :
    ∃ rest, rest <:+ t.tail ∧ Matches p rest := by
  obtain ⟨passed, read, hstar, hlen, hp, ht⟩ := h
  rw [hp] at hmatch
  obtain ⟨front, rest, hfront, rfl, hrest⟩ := exists_of_matches_append hstar hmatch
  refine ⟨rest, ?_, hrest⟩
  -- both are ends of the text in front of which the star was tried, and `rest` is not longer
  have hle : rest.length ≤ t.tail.length := by
    have := hfar.length_le
    rw [ht] at this
    simp only [List.length_append, List.length_tail] at this ⊢
    omega
  have hend : rest <:+ r.text :=
    (List.suffix_append front rest).trans (hfar.trans (List.tail_suffix r.text))
  have hend' : t.tail <:+ r.text := by
    rw [ht]
    exact (List.tail_suffix t).trans (List.suffix_append read t)
  exact List.suffix_of_suffix_length_le hend hend' hle

namespace Search

/-! ## What a run can still find -/

/-- The rest of the pattern matches the rest of the text, or the pattern behind the last star
matches further on in the text in front of which it was tried. -/
def Accepts (s : Search) : Prop :=
  Matches s.pattern s.text ∨
    ∃ r ∈ s.retry, ∃ rest, rest <:+ r.text.tail ∧ Matches r.pattern rest

theorem accepts_start {p t : List Char} : (start p t).Accepts ↔ Matches p t := by
  simp [Accepts, start]

theorem accepts_behindStar {p t : List Char} :
    (behindStar p t).Accepts ↔ Matches ('*' :: p) t := by
  have hself : (behindStar p t).Accepts ↔
      Matches p t ∨ ∃ rest, rest <:+ t.tail ∧ Matches p rest := by
    simp [Accepts, behindStar]
  rw [hself, matches_star_iff]
  cases t with
  | nil => simp
  | cons c t => simp [List.suffix_cons_iff, or_and_right, exists_or]

/-- With a star in front, nothing is lost by leaving the earlier star behind. -/
theorem accepts_of_star {s : Search} {p : List Char} (hp : s.pattern = '*' :: p) :
    s.Accepts ↔ Matches ('*' :: p) s.text := by
  unfold Accepts
  rw [hp]
  refine or_iff_left_of_imp ?_
  rintro ⟨r, hr, far, hfar, hmatch⟩
  have hreach := s.reaches r hr
  rw [hp] at hreach
  obtain ⟨rest, hrest, hstar⟩ := hreach.exists_rest hfar hmatch
  obtain ⟨rest', hrest', hmatch'⟩ := matches_star_iff.mp hstar
  exact .star (hrest'.trans (hrest.trans (List.tail_suffix s.text))) hmatch'

/-- A run whose pattern takes no character can only come back. -/
theorem not_matches_of_head {s : Search} {c : Char} {t : List Char} (ht : s.text = c :: t)
    (hhead : ∀ x ∈ s.pattern.head?, x ≠ '*' ∧ x ≠ '?' ∧ x ≠ c) :
    ¬ Matches s.pattern s.text := by
  rw [ht]
  cases hp : s.pattern with
  | nil => simp [matches_nil_iff]
  | cons x p =>
    obtain ⟨hstar, hone, hsame⟩ := hhead x (by simp [hp])
    rw [matches_cons_iff hstar]
    rintro ⟨d, rest, hd, hxd, -⟩
    rw [List.cons.injEq] at hd
    rcases hxd with hxd | hxd
    · exact hone hxd
    · exact hsame (hxd.trans hd.1.symm)

/-- No turn changes what a run can find. -/
theorem accepts_next {s s' : Search} (h : s.next = .inl s') : s'.Accepts ↔ s.Accepts := by
  rcases next_cases h with ⟨p, c, t, hp, ht, rfl⟩ | ⟨x, p, c, t, hx, hxc, hp, ht, hp', ht', hr⟩ |
    ⟨c, t, p, d, u, ht, hhead, hr, rfl⟩
  · -- a star, which from now on is the last one
    rw [accepts_behindStar, accepts_of_star hp, ht]
  · -- one character, which matches and leaves the last star as it is
    have hmatch : Matches (x :: p) (c :: t) ↔ Matches p t := by
      rw [matches_cons_iff hx]
      constructor
      · rintro ⟨d, rest, hd, -, hrest⟩
        rw [List.cons.injEq] at hd
        rw [hd.2]
        exact hrest
      · intro hrest
        exact ⟨c, t, rfl, hxc, hrest⟩
    rw [Accepts, Accepts, hp', ht', hr, hp, ht, hmatch]
  · -- back to the last star, which takes one character more
    rw [accepts_behindStar, matches_star_iff, Accepts, or_iff_right (not_matches_of_head ht hhead),
      hr]
    simp

/-- A search that cannot go back has no star to go back to, and fails. -/
theorem goBack_eq_inr {s : Search} {c : Char} {t : List Char} (ht : s.text = c :: t)
    {answer : Bool} (h : s.goBack = .inr answer) : s.retry = none ∧ answer = false := by
  unfold goBack at h
  split at h
  · cases h
  · next hretry =>
    cases h
    refine ⟨?_, rfl⟩
    cases hr : s.retry with
    | none => rfl
    | some r =>
      -- the text in front of which a star was tried is as long as what is left at least
      obtain ⟨passed, read, -, -, -, hread⟩ := s.reaches r hr
      obtain ⟨d, u, hdu⟩ : ∃ d u, r.text = d :: u := by
        rw [ht] at hread
        exact List.exists_cons_of_ne_nil (by simp [hread])
      exact absurd (hr.trans (by rw [← hdu])) (hretry r.pattern d u)

/-- When a run ends: at the end of the text, or where it cannot come back. -/
theorem answer_cases {s : Search} {answer : Bool} (h : s.next = .inr answer) :
    (s.text = [] ∧ answer = s.pattern.all (· == '*')) ∨
    ∃ c t, s.text = c :: t ∧ (∀ x ∈ s.pattern.head?, x ≠ '*' ∧ x ≠ '?' ∧ x ≠ c) ∧
      s.retry = none ∧ answer = false := by
  obtain ⟨pattern, text, retry, reaches⟩ := s
  cases text with
  | nil =>
    cases h
    exact .inl ⟨rfl, rfl⟩
  | cons c t =>
    cases pattern with
    | nil =>
      obtain ⟨hretry, hanswer⟩ := goBack_eq_inr rfl h
      exact .inr ⟨c, t, rfl, by simp, hretry, hanswer⟩
    | cons x p =>
      simp only [next] at h
      split at h
      · cases h
      · next hx =>
        split at h
        · cases h
        · next hxc =>
          obtain ⟨hretry, hanswer⟩ := goBack_eq_inr rfl h
          refine .inr ⟨c, t, rfl, ?_, hretry, hanswer⟩
          simpa [hx] using hxc

/-- Where a search answers, its answer is whether it accepts. -/
theorem accepts_of_answer {s : Search} {answer : Bool} (h : s.next = .inr answer) :
    answer = true ↔ s.Accepts := by
  rcases answer_cases h with ⟨ht, rfl⟩ | ⟨c, t, ht, hhead, hr, rfl⟩
  · rw [← matches_empty_iff, Accepts, ht]
    refine (or_iff_left_of_imp ?_).symm
    rintro ⟨r, hr, far, hfar, hmatch⟩
    have hreach := s.reaches r hr
    rw [ht] at hreach
    obtain ⟨rest, hrest, hp⟩ := hreach.exists_rest hfar hmatch
    rw [List.tail_nil, List.suffix_nil] at hrest
    rwa [hrest] at hp
  · have hnone : ¬ s.Accepts := by
      rw [Accepts, or_iff_right (not_matches_of_head ht hhead), hr]
      simp
    simp [hnone]

/-! ## Whole runs -/

/-- A run ends with an answer after finitely many turns. -/
inductive Ends : Search → Bool → Prop where
  | answer {s : Search} {answer : Bool} : s.next = .inr answer → Ends s answer
  | turn {s s' : Search} {answer : Bool} : s.next = .inl s' → Ends s' answer → Ends s answer

theorem ends_run (s : Search) : Ends s s.run := by
  fun_induction run s with
  | case1 s s' h ih => exact .turn h ih
  | case2 s answer h => exact .answer h

/-- The answer at the end is whether the search accepted at the start, by induction on its turns. -/
theorem Ends.accepts {s : Search} {answer : Bool} (h : Ends s answer) :
    answer = true ↔ s.Accepts := by
  induction h with
  | answer h => exact accepts_of_answer h
  | turn h _ ih => rw [ih, accepts_next h]

end Search

/-- A run along any pattern and any text ends, and its answer is whether the pattern matches the
whole text. -/
theorem isMatch_decides (p t : List Char) :
    (Search.start p t).Ends (isMatch p t) ∧ (isMatch p t = true ↔ Matches p t) := by
  have hends : (Search.start p t).Ends (isMatch p t) := Search.ends_run _
  refine ⟨hends, ?_⟩
  rw [hends.accepts, Search.accepts_start]

end HealthRules.Glob
